import Mathlib.Data.List.Basic

/-!
# Greedy selection

Elements come one after the other, and each is taken that is compatible with all those taken
before it.
-/
namespace Perception.Lib.Greedy

set_option autoImplicit false

variable {α : Type*} (compat : α → α → Prop) [DecidableRel compat]

/-- What is taken of a list after `kept` has been taken. -/
def select (kept : List α) : List α → List α
  | [] => []
  | x :: xs => if ∀ k ∈ kept, compat x k then x :: select (kept ++ [x]) xs else select kept xs

/-- One turn of a loop that collects what it takes. -/
def step (kept : List α) (x : α) : List α := if ∀ k ∈ kept, compat x k then kept ++ [x] else kept

theorem foldl_step (kept xs : List α) : xs.foldl (step compat) kept = kept ++ select compat kept xs := by
  induction xs generalizing kept with
  | nil => rw [List.foldl_nil, select, List.append_nil]
  | cons x xs ih =>
    rw [List.foldl_cons, ih, step, select]
    split
    · rw [List.append_assoc, List.singleton_append]
    · rfl

theorem select_append (kept xs ys : List α) :
    select compat kept (xs ++ ys) = select compat kept xs ++ select compat (kept ++ select compat kept xs) ys := by
  have hloop := foldl_step compat kept (xs ++ ys)
  rw [List.foldl_append, foldl_step, foldl_step, List.append_assoc] at hloop
  exact (List.append_cancel_left hloop).symm

theorem select_sublist (kept xs : List α) : (select compat kept xs).Sublist xs := by
  induction xs generalizing kept with
  | nil => exact .slnil
  | cons x xs ih =>
    rw [select]
    split
    · exact (ih _).cons_cons x
    · exact (ih _).cons x

/-- An element that is compatible with everything is taken. -/
theorem mem_select {x : α} (h : ∀ k, compat x k) (kept : List α) {xs : List α} (hx : x ∈ xs) :
    x ∈ select compat kept xs := by
  obtain ⟨before, behind, rfl⟩ := List.append_of_mem hx
  rw [select_append, select, if_pos fun k _ => h k]
  exact List.mem_append_right _ List.mem_cons_self

theorem select_replicate_of_turned_down {kept : List α} {x : α} (hx : ¬∀ k ∈ kept, compat x k) (n : Nat) :
    select compat kept (List.replicate n x) = [] := by
  induction n with
  | zero => rfl
  | succ n ih => rw [List.replicate_succ, select, if_neg hx, ih]

/-- Copies of one element: nothing is taken if the first is not. -/
theorem select_replicate_eq_nil (kept : List α) (x : α) (n : Nat) :
    select compat kept (List.replicate n x) = [] ↔ n = 0 ∨ ∃ k ∈ kept, ¬compat x k := by
  have hblocked : (∃ k ∈ kept, ¬compat x k) ↔ ¬∀ k ∈ kept, compat x k := by
    push Not
    rfl
  rw [hblocked]
  constructor
  · intro hnil
    by_contra hcon
    obtain ⟨hn, hx⟩ := not_or.mp hcon
    obtain ⟨m, rfl⟩ := Nat.exists_eq_succ_of_ne_zero hn
    rw [List.replicate_succ, select, if_pos (not_not.mp hx)] at hnil
    cases hnil
  · intro h
    rcases h with rfl | hx
    · rfl
    · exact select_replicate_of_turned_down compat hx n

end Perception.Lib.Greedy
