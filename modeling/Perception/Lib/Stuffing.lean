import Mathlib.Data.List.Basic
import Mathlib.Data.List.Infix

/-!
# Escape stuffing

A special symbol is replaced by the escape symbol followed by its flipped form. The
decoder drops an escape and flips the symbol after it. An escape at the very end of
the input makes the decoder look at the symbol that follows the input, which is the
parameter `next`.
-/
namespace Perception.Lib.Stuffing

set_option autoImplicit false

variable {α : Type} [DecidableEq α] (esc : α) (special : α → Bool) (flip : α → α)

def stuff : List α → List α
  | [] => []
  | x :: xs => if special x then esc :: flip x :: stuff xs else x :: stuff xs

def unstuff (next : α) : List α → List α
  | [] => []
  | [x] => if x = esc then [flip next] else [x]
  | x :: y :: r => if x = esc then flip y :: unstuff next r else x :: unstuff next (y :: r)

/-- The number of escape pairs that lie inside the input. -/
def pairs : List α → Nat
  | [] => 0
  | [_] => 0
  | x :: y :: r => if x = esc then pairs r + 1 else pairs (y :: r)

/-- What makes stuffing reversible. -/
structure Code : Prop where
  esc_special : special esc = true
  flip_flip : ∀ x, flip (flip x) = x
  flip_plain : ∀ x, special x = true → special (flip x) = false

@[simp] theorem unstuff_nil (next : α) : unstuff esc flip next [] = [] := by rw [unstuff]

theorem unstuff_plain {x : α} (h : x ≠ esc) (next : α) (xs : List α) :
    unstuff esc flip next (x :: xs) = x :: unstuff esc flip next xs := by
  cases xs with
  | nil => simp [unstuff, h]
  | cons y r => simp [unstuff, h]

theorem unstuff_esc (next y : α) (r : List α) :
    unstuff esc flip next (esc :: y :: r) = flip y :: unstuff esc flip next r := by
  simp [unstuff]

theorem unstuff_stuff (c : Code esc special flip) (next : α) (xs : List α) :
    unstuff esc flip next (stuff esc special flip xs) = xs := by
  induction xs with
  | nil => simp [stuff]
  | cons x xs ih =>
    by_cases hx : special x = true
    · rw [stuff, if_pos hx, unstuff_esc, c.flip_flip, ih]
    · have hne : x ≠ esc := fun he => hx (he ▸ c.esc_special)
      rw [stuff, if_neg hx, unstuff_plain esc flip hne, ih]

omit [DecidableEq α] in
/-- The only special symbol in a stuffed text is the escape itself. -/
theorem special_mem_stuff (c : Code esc special flip) {xs : List α} {y : α}
    (hy : y ∈ stuff esc special flip xs) (hs : special y = true) : y = esc := by
  induction xs with
  | nil => simp [stuff] at hy
  | cons x xs ih =>
    by_cases hx : special x = true
    · rw [stuff, if_pos hx] at hy
      rcases List.mem_cons.mp hy with he | hy
      · exact he
      · rcases List.mem_cons.mp hy with he | hy
        · rw [he, c.flip_plain x hx] at hs
          cases hs
        · exact ih hy
    · rw [stuff, if_neg hx] at hy
      rcases List.mem_cons.mp hy with he | hy
      · exact absurd (he ▸ hs) hx
      · exact ih hy

omit [DecidableEq α] in
theorem stuff_length (xs : List α) :
    (stuff esc special flip xs).length = xs.length + xs.countP special := by
  induction xs with
  | nil => rfl
  | cons x xs ih =>
    by_cases hx : special x = true
    · rw [stuff, if_pos hx, List.countP_cons_of_pos hx]
      simp only [List.length_cons, ih]
      omega
    · rw [stuff, if_neg hx, List.countP_cons_of_neg hx]
      simp only [List.length_cons, ih]
      omega

/-- Every escape pair shortens the decoded text by one symbol. -/
theorem unstuff_length (next : α) (xs : List α) :
    (unstuff esc flip next xs).length + pairs esc xs = xs.length := by
  induction xs using pairs.induct esc with
  | case1 => simp [pairs]
  | case2 x => by_cases hx : x = esc <;> simp [unstuff, pairs, hx]
  | case3 y r ih =>
    rw [unstuff_esc, pairs, if_pos rfl]
    simp only [List.length_cons]
    omega
  | case4 x y r hx ih =>
    rw [unstuff_plain esc flip hx, pairs, if_neg hx]
    simp only [List.length_cons] at ih ⊢
    omega

theorem pairs_eq_zero {xs : List α} (h : esc ∉ xs) : pairs esc xs = 0 := by
  induction xs using pairs.induct esc with
  | case1 => rfl
  | case2 x => rfl
  | case3 y r ih => exact absurd List.mem_cons_self h
  | case4 x y r hx ih =>
    rw [pairs, if_neg hx]
    exact ih fun hm => h (List.mem_cons_of_mem x hm)

/-- One more symbol in front adds at most one decoded symbol and removes none. -/
theorem unstuff_length_cons (next x : α) (xs : List α) :
    (unstuff esc flip next xs).length ≤ (unstuff esc flip next (x :: xs)).length ∧
      (unstuff esc flip next (x :: xs)).length ≤ (unstuff esc flip next xs).length + 1 := by
  induction xs using pairs.induct esc generalizing x with
  | case1 => by_cases hx : x = esc <;> simp [unstuff, hx]
  | case2 y => by_cases hx : x = esc <;> by_cases hy : y = esc <;> simp [unstuff, hx, hy]
  | case3 y r ih =>
    by_cases hx : x = esc
    · have h := ih y
      simp only [hx, unstuff_esc, List.length_cons]
      omega
    · simp [unstuff_plain esc flip hx]
  | case4 y z r hy ih =>
    by_cases hx : x = esc
    · simp only [hx, unstuff_esc, unstuff_plain esc flip hy, List.length_cons]
      omega
    · simp [unstuff_plain esc flip hx]

/-- Dropping two symbols in front removes at least one decoded symbol. -/
theorem unstuff_length_drop_two (next x y : α) (xs : List α) :
    (unstuff esc flip next xs).length + 1 ≤ (unstuff esc flip next (x :: y :: xs)).length := by
  by_cases hx : x = esc
  · simp [hx, unstuff_esc]
  · have h := unstuff_length_cons esc flip next y xs
    simp only [unstuff_plain esc flip hx, List.length_cons]
    omega

theorem unstuff_length_drop (next : α) (n : Nat) (xs : List α) :
    (unstuff esc flip next (xs.drop n)).length ≤ (unstuff esc flip next xs).length := by
  induction n generalizing xs with
  | zero => simp
  | succ n ih =>
    cases xs with
    | nil => simp
    | cons x xs => exact (ih xs).trans (unstuff_length_cons esc flip next x xs).1

theorem unstuff_length_take (next next' : α) (n : Nat) (xs : List α) :
    (unstuff esc flip next (xs.take n)).length ≤ (unstuff esc flip next' xs).length := by
  induction xs using pairs.induct esc generalizing n with
  | case1 => simp
  | case2 x =>
    cases n with
    | zero => simp
    | succ n => by_cases hx : x = esc <;> simp [unstuff, hx]
  | case3 y r ih =>
    match n with
    | 0 => simp
    | 1 => simp [unstuff]
    | n + 2 => simpa [unstuff_esc] using ih n
  | case4 x y r hx ih =>
    cases n with
    | zero => simp
    | succ n => simpa [unstuff_plain esc flip hx] using ih n

end Perception.Lib.Stuffing
