import Mathlib.Data.Set.Insert
import Mathlib.Logic.Function.Basic

/-!
# Tables whose entries are written once

What an entry has to become is known beforehand; an entry that has it is settled.
-/
namespace Perception.Lib.WriteOnce

set_option autoImplicit false

variable {K V : Type}

/-- The entry has the value that it has to become. -/
def Settled (val t : K → Option V) (k : K) : Prop := ∃ v, val k = some v ∧ t k = some v

/-- From `t` to `t'` the entries `outs` are settled, and no other changes. -/
structure Fills (val : K → Option V) (outs : Set K) (t t' : K → Option V) : Prop where
  written : ∀ k ∈ outs, Settled val t' k
  frame : ∀ k ∉ outs, t' k = t k

variable {val t t' t'' : K → Option V} {A B : Set K} {k : K}

namespace Fills

theorem refl (val t : K → Option V) : Fills val ∅ t t := ⟨fun _ hk => hk.elim, fun _ _ => rfl⟩

theorem settled (h : Fills val A t t') (hk : Settled val t k) : Settled val t' k := by
  by_cases hA : k ∈ A
  · exact h.written k hA
  · obtain ⟨v, hv, ht⟩ := hk
    exact ⟨v, hv, (h.frame k hA).trans ht⟩

theorem trans (h : Fills val A t t') (h' : Fills val B t' t'') : Fills val (A ∪ B) t t'' := by
  constructor
  · rintro k (hA | hB)
    · exact h'.settled (h.written k hA)
    · exact h'.written k hB
  · intro k hk
    rw [Set.mem_union, not_or] at hk
    rw [h'.frame k hk.2, h.frame k hk.1]

theorem congr (h : Fills val A t t') (hAB : ∀ k, k ∈ A ↔ k ∈ B) : Fills val B t t' :=
  ⟨fun k hk => h.written k ((hAB k).mpr hk), fun k hk => h.frame k fun hA => hk ((hAB k).mp hA)⟩

theorem update [DecidableEq K] {v : V} (t : K → Option V) (hv : val k = some v) :
    Fills val {k} t (Function.update t k (some v)) := by
  constructor
  · rintro _ rfl
    exact ⟨v, hv, Function.update_self ..⟩
  · intro k' hk'
    exact Function.update_of_ne hk' ..

end Fills

end Perception.Lib.WriteOnce
