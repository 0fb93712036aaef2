import Mathlib.Data.List.Basic
import Mathlib.Tactic.ByContra

/-!
# Blocks of memory

A block of cells that is read and written at integer places. An access that is not inside the
block has no result; an access to no cell at all is inside at any of its places.
-/
namespace Perception.Lib.Block

set_option autoImplicit false

variable {α : Type}

/-- Cells `i` to `i + n`. -/
def Inside (block : List α) (i n : Int) : Prop := 0 ≤ i ∧ 0 ≤ n ∧ i + n ≤ block.length

instance (block : List α) (i n : Int) : Decidable (Inside block i n) := by unfold Inside; infer_instance

/-- `n` cells are read from place `i` on. -/
def load (block : List α) (i n : Int) : Option (List α) :=
  if Inside block i n then some ((block.drop i.toNat).take n.toNat) else none

/-- One cell is read. -/
def peek (block : List α) (i : Int) : Option α := if 0 ≤ i then block[i.toNat]? else none

/-- Cells are written from place `i` on. -/
def store (block : List α) (i : Int) (cells : List α) : Option (List α) :=
  if Inside block i cells.length then
    some (block.take i.toNat ++ cells ++ block.drop (i.toNat + cells.length))
  else none

variable {block block' cells : List α} {i n : Int}

theorem load_eq_none (h : ¬Inside block i n) : load block i n = none := if_neg h

theorem load_of_inside (h : Inside block i n) : load block i n = some ((block.drop i.toNat).take n.toNat) := if_pos h

theorem load_eq_some (h : load block i n = some cells) : Inside block i n := by
  by_contra hout
  rw [load_eq_none hout] at h
  cases h

theorem peek_of_lt {k : Nat} (h : k < block.length) : peek block k = some (block[k]) := by
  rw [peek, if_pos (Int.natCast_nonneg k), Int.toNat_natCast, List.getElem?_eq_getElem h]

theorem peek_of_neg (h : i < 0) : peek block i = none := if_neg (Int.not_le.mpr h)

theorem store_of_inside (h : Inside block i cells.length) :
    store block i cells = some (block.take i.toNat ++ cells ++ block.drop (i.toNat + cells.length)) := if_pos h

theorem store_eq_some (h : store block i cells = some block') :
    Inside block i cells.length ∧ block' = block.take i.toNat ++ cells ++ block.drop (i.toNat + cells.length) := by
  unfold store at h
  split at h
  · next hin => exact ⟨hin, (Option.some.inj h).symm⟩
  · cases h

theorem length_store (h : store block i cells = some block') : block'.length = block.length := by
  obtain ⟨⟨hi, -, hle⟩, rfl⟩ := store_eq_some h
  simp only [List.length_append, List.length_take, List.length_drop]
  omega

/-- What is read up to the end of what was written. -/
theorem take_store {k : Nat} (h : store block k cells = some block') :
    block'.take (k + cells.length) = block.take k ++ cells := by
  obtain ⟨⟨-, -, hle⟩, rfl⟩ := store_eq_some h
  have hlen : (block.take k ++ cells).length = k + cells.length := by
    rw [List.length_append, List.length_take]
    omega
  rw [Int.toNat_natCast, List.take_left' hlen]

theorem take_store_zero (h : store block 0 cells = some block') : block'.take cells.length = cells := by
  have htake := take_store (k := 0) h
  rw [Nat.zero_add, List.take_zero, List.nil_append] at htake
  exact htake

/-- What is in front of what was written. -/
theorem take_store_left {k : Nat} (h : store block k cells = some block') : block'.take k = block.take k := by
  obtain ⟨⟨-, -, hle⟩, rfl⟩ := store_eq_some h
  have hlen : (block.take k).length = k := by
    rw [List.length_take]
    omega
  rw [Int.toNat_natCast, List.append_assoc, List.take_left' hlen]

end Perception.Lib.Block
