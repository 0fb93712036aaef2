import Mathlib.Data.List.Basic

/-!
# The contents of a `CSmartBuffer`

The buffer as the list of the bytes it holds. Capacity and allocation do not show
in the results of these operations.
-/
namespace Perception.Buf.SmartBuffer

set_option autoImplicit false

/-- `find(char&)`; the source answers -1 where this answers `none`. -/
def find (buffer : List UInt8) (value : UInt8) : Option Nat :=
  buffer.findIdx? (fun b => value == b)

def truncate (buffer : List UInt8) (length : Nat) : List UInt8 :=
  if buffer.length < length then [] else buffer.drop length

theorem find_eq_none {buffer : List UInt8} {value : UInt8} :
    find buffer value = none ↔ value ∉ buffer := by
  rw [find, List.findIdx?_eq_none_iff]
  constructor
  · intro h hm
    simpa using h value hm
  · intro h b hb
    simp only [beq_eq_false_iff_ne, ne_eq]
    exact fun he => h (he ▸ hb)

/-- The first occurrence splits the contents. -/
theorem find_eq_some {buffer : List UInt8} {value : UInt8} {i : Nat}
    (h : find buffer value = some i) :
    ∃ pre post, buffer = pre ++ value :: post ∧ pre.length = i ∧ value ∉ pre := by
  obtain ⟨hi, hv, hpre⟩ := List.findIdx?_eq_some_iff_getElem.mp h
  have hvi : value = buffer[i] := eq_of_beq hv
  refine ⟨buffer.take i, buffer.drop (i + 1), ?_, by simp; omega, ?_⟩
  · rw [hvi, List.getElem_cons_drop, List.take_append_drop]
  · intro hm
    obtain ⟨j, hj, he⟩ := List.mem_iff_getElem.mp hm
    have hji : j < i := by simp at hj; omega
    rw [List.getElem_take] at he
    exact hpre j hji (by simp [he])

theorem truncate_append (pre post : List UInt8) : truncate (pre ++ post) pre.length = post := by
  simp only [truncate, List.length_append, List.drop_left]
  exact if_neg (by omega)

end Perception.Buf.SmartBuffer
