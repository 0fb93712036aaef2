import Mathlib.Data.List.Nodup
import Mathlib.Data.List.Sort
import Mathlib.Order.Basic

/-!
# Rankings

Elements by a key, the greatest first, and those with one key in the order they had: what a
stable sort makes of a list in increasing order, and nothing else.
-/
namespace Perception.Lib

set_option autoImplicit false

/-- Two elements of a list without duplicates come in one order only. -/
theorem not_sublist_swap {α : Type*} {l : List α} (hnodup : l.Nodup) {a b : α} (hab : [a, b].Sublist l) :
    ¬[b, a].Sublist l := by
  induction l with
  | nil => cases hab
  | cons c l ih =>
    obtain ⟨hc, hnodup⟩ := List.nodup_cons.mp hnodup
    intro hba
    cases hab with
    | cons _ hab =>
      cases hba with
      | cons _ hba => exact ih hnodup hab hba
      | cons_cons _ _ => exact hc (hab.subset (by simp))
    | cons_cons _ hb =>
      cases hba with
      | cons _ hba => exact hc (hba.subset (by simp))
      | cons_cons _ _ => exact hc (List.singleton_sublist.mp hb)

variable {α κ : Type*} [LinearOrder α] [LinearOrder κ]

structure Ranking (key : α → κ) (l ranking : List α) : Prop where
  perm : ranking.Perm l
  ordered : ranking.Pairwise fun a b => key b < key a ∨ key a = key b ∧ a < b

/-- The sort that compares keys by "greater". -/
def rank (key : α → κ) (l : List α) : List α := l.mergeSort fun a b => !decide (key b > key a)

/-- Which of two is in front, in an increasing list. -/
theorem pair_sublist {l : List α} (hl : l.Pairwise (· < ·)) {a b : α} (ha : a ∈ l) (hb : b ∈ l) (hlt : a < b) :
    [a, b].Sublist l := by
  have hnodup : [a, b].Nodup := by simp [hlt.ne]
  have hsubset : [a, b] ⊆ l := by simp [ha, hb]
  exact List.sublist_of_subperm_of_pairwise (List.subperm_of_subset hnodup hsubset)
    (List.pairwise_pair.mpr hlt.le) (hl.imp le_of_lt)

theorem Ranking.rank (key : α → κ) {l : List α} (hl : l.Pairwise (· < ·)) : Ranking key l (rank key l) where
  perm := List.mergeSort_perm l _
  ordered := by
    have htrans : ∀ a b c : α, !decide (key b > key a) → !decide (key c > key b) → !decide (key c > key a) := by
      intro a b c hab hbc
      simp only [Bool.not_eq_true', decide_eq_false_iff_not, not_lt] at hab hbc ⊢
      exact hbc.trans hab
    have htotal : ∀ a b : α, !decide (key b > key a) || !decide (key a > key b) := by
      intro a b
      simp only [Bool.or_eq_true, Bool.not_eq_true', decide_eq_false_iff_not, not_lt]
      exact le_total _ _
    have hnodup : (Perception.Lib.rank key l).Nodup :=
      (List.mergeSort_perm l _).nodup_iff.mpr (hl.imp LT.lt.ne)
    rw [List.pairwise_iff_forall_sublist]
    intro a b hab
    have hle := List.pairwise_iff_forall_sublist.mp (List.pairwise_mergeSort htrans htotal l) hab
    simp only [Bool.not_eq_true', decide_eq_false_iff_not, not_lt] at hle
    refine hle.lt_or_eq.imp_right fun heq => ⟨heq.symm, ?_⟩
    have hmem : ∀ c ∈ [a, b], c ∈ l := fun c hc => List.mem_mergeSort.mp (hab.subset hc)
    rcases lt_trichotomy a b with hlt | rfl | hgt
    · exact hlt
    · exact absurd hab (not_sublist_swap hnodup hab)
    · -- the sort leaves the smaller one in front
      have hba := pair_sublist hl (hmem b (by simp)) (hmem a (by simp)) hgt
      have hkeep : !decide (key a > key b) := by simp [heq]
      exact absurd (List.pair_sublist_mergeSort htrans htotal hkeep hba) (not_sublist_swap hnodup hab)

theorem Ranking.unique {key : α → κ} {l r₁ r₂ : List α} (h₁ : Ranking key l r₁) (h₂ : Ranking key l r₂) : r₁ = r₂ := by
  refine List.Perm.eq_of_pairwise ?_ h₁.ordered h₂.ordered (h₁.perm.trans h₂.perm.symm)
  intro a b _ _ hab hba
  rcases hab with hlt | ⟨heq, hlt⟩
  · rcases hba with hlt' | ⟨heq, -⟩
    · exact absurd hlt hlt'.asymm
    · exact absurd hlt heq.not_lt
  · rcases hba with hlt' | ⟨-, hlt'⟩
    · exact absurd hlt' heq.not_lt
    · exact absurd hlt hlt'.asymm

end Perception.Lib
