import Mathlib.Data.List.Basic

/-!
# Buffers for terminated texts

A buffer of a fixed size, into which texts are copied that end in a terminator. A copy that does
not fit is none, and so is the length of a text whose terminator is not in the buffer. A buffer
that was cleared holds a text when it begins with the text and has terminators behind it.
-/
namespace Perception.Lib.CBuffer

set_option autoImplicit false

variable {α : Type} (z : α)

/-- `cs` is copied to place `i`. -/
def store (buf : List α) (i : Nat) (cs : List α) : Option (List α) :=
  if i + cs.length ≤ buf.length then some (buf.take i ++ cs ++ buf.drop (i + cs.length)) else none

/-- The length of the text in a buffer. -/
def strlen [DecidableEq α] (buf : List α) : Option Nat := if z ∈ buf then some (buf.takeWhile (· ≠ z)).length else none

/-- A copy with its terminator. -/
def strcpy (buf : List α) (i : Nat) (cs : List α) : Option (List α) := store buf i (cs ++ [z])

/-- A copy behind the text that is there. -/
def strcat [DecidableEq α] (buf cs : List α) : Option (List α) := do
  let n ← strlen z buf
  strcpy z buf n cs

/-- A buffer of size `n` that holds `t`. -/
def holding (n : Nat) (t : List α) : List α := t ++ List.replicate (n - t.length) z

variable {z} {n : Nat} {t cs : List α}

theorem holding_nil (n : Nat) : holding z n [] = List.replicate n z := rfl

theorem length_holding (h : t.length ≤ n) : (holding z n t).length = n := by
  rw [holding, List.length_append, List.length_replicate]
  omega

theorem store_holding (ht : t.length ≤ n) :
    store (holding z n t) t.length cs = if t.length + cs.length ≤ n then some (holding z n (t ++ cs)) else none := by
  rw [store, length_holding ht]
  split
  · have htake : (holding z n t).take t.length = t := List.take_left
    have hdrop : (holding z n t).drop (t.length + cs.length) = List.replicate (n - (t.length + cs.length)) z := by
      rw [holding, List.drop_append, List.drop_eq_nil_of_le (Nat.le_add_right _ _), List.nil_append, List.drop_replicate]
      congr 1
      omega
    rw [htake, hdrop, holding, List.length_append]
  · rfl

/-- The terminator is there already. -/
theorem strcpy_holding (ht : t.length ≤ n) :
    strcpy z (holding z n t) t.length cs = if t.length + cs.length < n then some (holding z n (t ++ cs)) else none := by
  rw [strcpy, store_holding ht, List.length_append, List.length_singleton]
  by_cases hlt : t.length + cs.length < n
  · have hlast : holding z n (t ++ (cs ++ [z])) = holding z n (t ++ cs) := by
      obtain ⟨k, hk⟩ : ∃ k, n - (t ++ cs).length = k + 1 := by
        refine ⟨n - (t.length + cs.length) - 1, ?_⟩
        rw [List.length_append]
        omega
      have hk' : n - (t ++ (cs ++ [z])).length = k := by
        rw [List.length_append] at hk
        simp only [List.length_append, List.length_singleton]
        omega
      rw [holding, holding, hk, hk', List.replicate_succ, ← List.append_assoc, List.append_assoc (t ++ cs)]
      rfl
    rw [if_pos hlt, if_pos (by omega), hlast]
  · rw [if_neg hlt, if_neg (by omega)]

variable [DecidableEq α]

theorem takeWhile_holding (hz : z ∉ t) (n : Nat) : (holding z n t).takeWhile (· ≠ z) = t := by
  have hall : ∀ c ∈ t, decide (c ≠ z) = true := fun c hc => decide_eq_true fun heq => hz (heq ▸ hc)
  rw [holding, List.takeWhile_append_of_pos hall]
  cases n - t.length with
  | zero => exact List.append_nil t
  | succ k => rw [List.replicate_succ, List.takeWhile_cons_of_neg (by simp), List.append_nil]

theorem strlen_holding (hz : z ∉ t) (ht : t.length ≤ n) :
    strlen z (holding z n t) = if t.length < n then some t.length else none := by
  have hmem : z ∈ holding z n t ↔ t.length < n := by
    rw [holding, List.mem_append, List.mem_replicate]
    constructor
    · rintro (h | ⟨h, -⟩)
      · exact absurd h hz
      · omega
    · intro hlt
      exact .inr ⟨by omega, rfl⟩
  unfold strlen
  rw [takeWhile_holding hz]
  split
  · next h => rw [if_pos (hmem.mp h)]
  · next h => rw [if_neg (mt hmem.mpr h)]

/-- A text is put behind another one. -/
theorem strcat_holding (hz : z ∉ t) (ht : t.length ≤ n) :
    strcat z (holding z n t) cs = if t.length + cs.length < n then some (holding z n (t ++ cs)) else none := by
  rw [strcat, strlen_holding hz ht]
  by_cases hlt : t.length < n
  · rw [if_pos hlt]
    exact strcpy_holding ht
  · rw [if_neg hlt, if_neg (by omega)]
    rfl

end Perception.Lib.CBuffer
