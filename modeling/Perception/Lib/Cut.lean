/-!
# Cuts

What comes before and after the first place where a text has a separator in it.
-/
namespace Perception.Lib.Cut

set_option autoImplicit false

variable {α : Type} [DecidableEq α]

/-- What comes after a prefix. -/
def after : List α → List α → Option (List α)
  | [], s => some s
  | _ :: _, [] => none
  | p :: ps, c :: cs => if p = c then after ps cs else none

/-- What comes before and after the first `sep`. -/
def cut (sep : List α) : List α → Option (List α × List α)
  | [] => if sep = [] then some ([], []) else none
  | c :: cs =>
    match after sep (c :: cs) with
    | some rest => some ([], rest)
    | none => (cut sep cs).map fun r => (c :: r.1, r.2)

variable {sep s a b : List α}

theorem after_eq_some : after a s = some b ↔ s = a ++ b := by
  induction a generalizing s with
  | nil => exact ⟨fun h => Option.some.inj h, fun h => congrArg some h⟩
  | cons x a ih =>
    cases s with
    | nil => exact ⟨nofun, nofun⟩
    | cons c s =>
      rw [after, List.cons_append, List.cons.injEq]
      by_cases hx : x = c
      · rw [if_pos hx, ih]
        exact ⟨fun h => ⟨hx.symm, h⟩, fun h => h.2⟩
      · rw [if_neg hx]
        exact ⟨nofun, fun h => absurd h.1.symm hx⟩

theorem after_append (a b : List α) : after a (a ++ b) = some b := after_eq_some.mpr rfl

theorem cut_append_self (hsep : sep ≠ []) (s : List α) : cut sep (sep ++ s) = some ([], s) := by
  cases hs : sep ++ s with
  | nil => exact absurd (List.append_eq_nil_iff.mp hs).1 hsep
  | cons c cs => rw [cut, ← hs, after_append]

theorem cut_eq_some (h : cut sep s = some (a, b)) : s = a ++ sep ++ b := by
  induction s generalizing a with
  | nil =>
    rw [cut] at h
    split at h
    · next hsep =>
      cases h
      rw [hsep]
      rfl
    · cases h
  | cons c cs ih =>
    rw [cut] at h
    split at h
    · next rest hrest =>
      cases h
      exact after_eq_some.mp hrest
    · obtain ⟨r, hr, heq⟩ := Option.map_eq_some_iff.mp h
      cases heq
      rw [ih hr]
      rfl

/-- No earlier place has a separator. -/
theorem length_le_of_cut (h : cut sep s = some (a, b)) {a' b' : List α} (hs : s = a' ++ (sep ++ b')) :
    a.length ≤ a'.length := by
  induction s generalizing a a' with
  | nil =>
    have hlen := congrArg List.length (cut_eq_some h)
    simp only [List.length_nil, List.length_append] at hlen
    omega
  | cons c cs ih =>
    rw [cut] at h
    split at h
    · cases h
      exact Nat.zero_le _
    · next hnone =>
      obtain ⟨r, hr, heq⟩ := Option.map_eq_some_iff.mp h
      cases heq
      cases a' with
      | nil =>
        rw [List.nil_append] at hs
        rw [hs, after_append] at hnone
        cases hnone
      | cons c' a' => exact Nat.succ_le_succ (ih hr (List.cons.inj hs).2)

/-- More text behind a cut. -/
theorem cut_append (h : cut sep s = some (a, b)) (us : List α) : cut sep (s ++ us) = some (a, b ++ us) := by
  induction s generalizing a with
  | nil =>
    rw [cut] at h
    split at h
    · next hsep =>
      cases h
      subst hsep
      cases us with
      | nil => rfl
      | cons u us => rfl
    · cases h
  | cons c cs ih =>
    rw [cut] at h
    rw [List.cons_append, cut]
    split at h
    · next rest hrest =>
      cases h
      have hmore : after sep (c :: (cs ++ us)) = some (b ++ us) := by
        apply after_eq_some.mpr
        rw [← List.append_assoc, ← after_eq_some.mp hrest]
        rfl
      rw [hmore]
    · next hnone =>
      obtain ⟨r, hr, heq⟩ := Option.map_eq_some_iff.mp h
      cases heq
      -- The separator is in `cs`, which leaves no room for one that begins here and ends later.
      have hlen := congrArg List.length (cut_eq_some hr)
      simp only [List.length_append] at hlen
      have hnone' : after sep (c :: (cs ++ us)) = none := by
        rw [Option.eq_none_iff_forall_ne_some]
        intro x hx
        rcases List.append_eq_append_iff.mp (after_eq_some.mp hx : (c :: cs) ++ us = sep ++ x) with ⟨v, hv, -⟩ | ⟨v, hv, -⟩
        · have hlong := congrArg List.length hv
          simp only [List.length_append, List.length_cons] at hlong
          omega
        · rw [hv, after_append] at hnone
          cases hnone
      rw [hnone', ih hr]
      rfl

/-- The first separator behind a text that has none of its signs. -/
theorem eq_append_of_cut {x : α} {xs p q : List α} (h : cut (x :: xs) s = some (a, b)) (hs : s = p ++ q) (hx : x ∉ p) :
    ∃ v, a = p ++ v ∧ q = v ++ (x :: xs) ++ b := by
  have heq := cut_eq_some h
  rw [hs, List.append_assoc] at heq
  rcases List.append_eq_append_iff.mp heq with ⟨v, hv, hq⟩ | ⟨v, hv, hq⟩
  · refine ⟨v, hv, ?_⟩
    rw [hq, List.append_assoc]
  · cases v with
    | nil =>
      refine ⟨[], ?_, ?_⟩
      · rw [hv, List.append_nil, List.append_nil]
      · rw [List.nil_append]
        exact hq.symm
    | cons y v =>
      obtain rfl : x = y := (List.cons.inj hq).1
      exact absurd (hv ▸ List.mem_append_right _ List.mem_cons_self) hx

theorem notMem_of_cut {x : α} (h : cut [x] s = some (a, b)) : x ∉ a := by
  intro hx
  obtain ⟨a₁, a₂, rfl⟩ := List.append_of_mem hx
  have heq := cut_eq_some h
  have hearly : s = a₁ ++ ([x] ++ (a₂ ++ [x] ++ b)) := by
    rw [heq]
    simp only [List.append_assoc, List.cons_append, List.nil_append]
  have hle := length_le_of_cut h hearly
  rw [List.length_append, List.length_cons] at hle
  omega

theorem exists_cut (a b : List α) : ∃ r, cut sep (a ++ (sep ++ b)) = some r := by
  induction a with
  | nil =>
    rw [List.nil_append]
    cases hs : sep ++ b with
    | nil =>
      obtain ⟨rfl, rfl⟩ := List.append_eq_nil_iff.mp hs
      exact ⟨_, rfl⟩
    | cons c cs =>
      rw [cut, ← hs, after_append]
      exact ⟨_, rfl⟩
  | cons c a ih =>
    obtain ⟨r, hr⟩ := ih
    rw [List.cons_append, cut]
    split
    · exact ⟨_, rfl⟩
    · rw [hr]
      exact ⟨_, rfl⟩

end Perception.Lib.Cut
