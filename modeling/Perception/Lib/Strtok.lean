import Mathlib.Data.List.Basic

/-!
# Tokens

`strtok sep s` lists the non-empty pieces of `s` between separators, so that adjacent
separators count as one. A list of pieces, each with a separator behind it, is read back
when no piece is empty or holds the separator.
-/
namespace Perception.Lib

set_option autoImplicit false

variable {α : Type} [BEq α]

def strtok (sep : α) (s : List α) : List (List α) := (s.splitOn sep).filter (!·.isEmpty)

@[simp] theorem strtok_nil (sep : α) : strtok sep [] = [] := rfl

variable [LawfulBEq α]

theorem strtok_append_cons (sep : α) (xs ys : List α) :
    strtok sep (xs ++ sep :: ys) = strtok sep xs ++ strtok sep ys := by
  rw [strtok, List.splitOn_append_cons_self, List.filter_append]
  rfl

theorem strtok_of_not_mem {sep : α} {xs : List α} (h : sep ∉ xs) (hne : xs ≠ []) : strtok sep xs = [xs] := by
  rw [strtok, List.splitOn_eq_singleton h]
  cases xs with
  | nil => exact absurd rfl hne
  | cons x xs => rfl

/-- A piece with a separator behind it. -/
theorem strtok_piece {sep : α} {p : List α} (h : sep ∉ p) (xs : List α) :
    strtok sep (p ++ sep :: xs) = [p].filter (!·.isEmpty) ++ strtok sep xs := by
  rw [strtok_append_cons]
  cases p with
  | nil => rfl
  | cons c p => rw [strtok_of_not_mem h (List.cons_ne_nil c p)]; rfl

/-- Pieces with a separator behind each are read back, except empty ones. -/
theorem strtok_flatMap {sep : α} {ps : List (List α)} (h : ∀ p ∈ ps, sep ∉ p) :
    strtok sep (ps.flatMap (· ++ [sep])) = ps.filter (!·.isEmpty) := by
  induction ps with
  | nil => rfl
  | cons p ps ih =>
    obtain ⟨hp, hps⟩ := List.forall_mem_cons.mp h
    rw [List.flatMap_cons, List.append_assoc, List.singleton_append, strtok_piece hp, ih hps]
    exact (List.filter_append ..).symm

theorem mem_splitOn {sep : α} {s t : List α} (h : t ∈ s.splitOn sep) : sep ∉ t ∧ ∀ c ∈ t, c ∈ s := by
  induction s generalizing t with
  | nil =>
    rw [List.splitOn_nil, List.mem_singleton] at h
    simp [h]
  | cons x s ih =>
    rw [List.splitOn_cons_eq_if_modifyHead] at h
    split at h
    · rcases List.mem_cons.mp h with rfl | h
      · simp
      · obtain ⟨hsep, hsub⟩ := ih h
        exact ⟨hsep, fun c hc => List.mem_cons_of_mem x (hsub c hc)⟩
    · next hx =>
      cases hs : s.splitOn sep with
      | nil =>
        rw [hs] at h
        cases h
      | cons p ps =>
        rw [hs] at h
        rcases List.mem_cons.mp h with rfl | h
        · obtain ⟨hsep, hsub⟩ := ih (hs ▸ List.mem_cons_self : p ∈ s.splitOn sep)
          have hne : sep ≠ x := fun he => hx (beq_iff_eq.mpr he.symm)
          exact ⟨List.not_mem_cons_of_ne_of_not_mem hne hsep,
            List.forall_mem_cons.mpr ⟨List.mem_cons_self, fun c hc => List.mem_cons_of_mem x (hsub c hc)⟩⟩
        · obtain ⟨hsep, hsub⟩ := ih (hs ▸ List.mem_cons_of_mem p h : t ∈ s.splitOn sep)
          exact ⟨hsep, fun c hc => List.mem_cons_of_mem x (hsub c hc)⟩

/-- A token is not empty, does not hold the separator, and is made of what it was cut from. -/
theorem mem_strtok {sep : α} {s t : List α} (h : t ∈ strtok sep s) : t ≠ [] ∧ sep ∉ t ∧ ∀ c ∈ t, c ∈ s := by
  obtain ⟨hmem, hne⟩ := List.mem_filter.mp h
  obtain ⟨hsep, hsub⟩ := mem_splitOn hmem
  refine ⟨?_, hsep, hsub⟩
  rintro rfl
  cases hne

end Perception.Lib
