import Mathlib.Data.List.Forall2

/-!
# The last that is found

A loop goes through slots and keeps the last value that is looked for. A slot that has
not been written may show anything, so what the loop keeps is certain only if no such slot
can be taken for a find behind it.
-/
namespace Perception.Lib

set_option autoImplicit false

variable {α : Type} (p : α → Prop)

def lastFound [DecidablePred p] (acc : α) (xs : List α) : α := xs.foldl (fun acc x => if p x then x else acc) acc

/-- A slot shows what was written to it, or any value of its type. -/
def Shows (any : α → Prop) : Option α → α → Prop
  | some t, x => x = t
  | none, x => any x

/-- Nothing can be found in the slot. -/
def Quiet (any : α → Prop) (slot : Option α) : Prop := ∀ x, Shows any slot x → ¬ p x

/-- The last find is one that was written, and a good one. -/
def SureFind (any good : α → Prop) (slots : List (Option α)) : Prop :=
  ∃ before t after, slots = before ++ some t :: after ∧ p t ∧ good t ∧ ∀ s ∈ after, Quiet p any s

variable {p} {any good : α → Prop}

theorem quiet_some_iff {t : α} : Quiet p any (some t) ↔ ¬ p t := by
  constructor
  · intro h
    exact h t rfl
  · rintro h _ rfl
    exact h

theorem sureFind_cons_iff {s : Option α} {slots : List (Option α)} :
    SureFind p any good (s :: slots) ↔
      (∃ t, s = some t ∧ p t ∧ good t ∧ ∀ s ∈ slots, Quiet p any s) ∨ SureFind p any good slots := by
  constructor
  · rintro ⟨before, t, after, heq, hp, hgood, hafter⟩
    cases before with
    | nil =>
      obtain ⟨rfl, rfl⟩ := List.cons.inj heq
      exact .inl ⟨t, rfl, hp, hgood, hafter⟩
    | cons b before =>
      obtain ⟨-, rfl⟩ := List.cons.inj heq
      exact .inr ⟨before, t, after, rfl, hp, hgood, hafter⟩
  · rintro (⟨t, rfl, hp, hgood, hafter⟩ | ⟨before, t, after, rfl, hp, hgood, hafter⟩)
    · exact ⟨[], t, slots, rfl, hp, hgood, hafter⟩
    · exact ⟨s :: before, t, after, rfl, hp, hgood, hafter⟩

theorem sureFind_congr {good' : α → Prop} {slots : List (Option α)} (h : ∀ t, some t ∈ slots → (good t ↔ good' t)) :
    SureFind p any good slots ↔ SureFind p any good' slots := by
  unfold SureFind
  refine exists_congr fun before => exists_congr fun t => exists_congr fun after => and_congr_right fun heq => ?_
  have hmem : some t ∈ slots := heq ▸ List.mem_append_right _ List.mem_cons_self
  rw [h t hmem]

variable [DecidablePred p]

theorem lastFound_concat {x : α} (h : p x) (acc : α) (xs : List α) : lastFound p acc (xs ++ [x]) = x := by
  rw [lastFound, List.foldl_append]
  exact if_pos h

/-- What one slot can do to what has been kept. -/
theorem forall_shows_iff (hany : ∃ x, any x) (hbad : ∀ x, any x → p x → ∃ y, any y ∧ p y ∧ ¬ good y)
    (s : Option α) (acc : α) :
    (∀ x, Shows any s x → good (if p x then x else acc)) ↔
      (∃ t, s = some t ∧ p t ∧ good t) ∨ (Quiet p any s ∧ good acc) := by
  cases s with
  | some t =>
    by_cases hp : p t
    · constructor
      · intro h
        have ht := h t rfl
        rw [if_pos hp] at ht
        exact .inl ⟨t, rfl, hp, ht⟩
      · rintro (⟨_, ⟨⟩, -, hgood⟩ | ⟨hquiet, -⟩) _ rfl
        · rwa [if_pos hp]
        · exact absurd hp (quiet_some_iff.mp hquiet)
    · constructor
      · intro h
        have ht := h t rfl
        rw [if_neg hp] at ht
        exact .inr ⟨quiet_some_iff.mpr hp, ht⟩
      · rintro (⟨_, ⟨⟩, hp', -⟩ | ⟨-, hgood⟩) _ rfl
        · exact absurd hp' hp
        · rwa [if_neg hp]
  | none =>
    constructor
    · intro h
      by_cases hquiet : Quiet p any none
      · obtain ⟨x, hx⟩ := hany
        have hacc := h x hx
        rw [if_neg (hquiet x hx)] at hacc
        exact .inr ⟨hquiet, hacc⟩
      · unfold Quiet at hquiet
        push Not at hquiet
        obtain ⟨x, hx, hp⟩ := hquiet
        obtain ⟨y, hy, hpy, hgood⟩ := hbad x hx hp
        have hacc := h y hy
        rw [if_pos hpy] at hacc
        exact absurd hacc hgood
    · rintro (⟨_, heq, -⟩ | ⟨hquiet, hgood⟩) x hx
      · cases heq
      · rwa [if_neg (hquiet x hx)]

/-- Whatever the slots show, the loop ends with something good if and only if the last find
is a good one that was written, or there can be no find and it began with something good. -/
theorem forall_lastFound_iff (hany : ∃ x, any x) (hbad : ∀ x, any x → p x → ∃ y, any y ∧ p y ∧ ¬ good y)
    (slots : List (Option α)) (acc : α) :
    (∀ xs, List.Forall₂ (Shows any) slots xs → good (lastFound p acc xs)) ↔
      SureFind p any good slots ∨ ((∀ s ∈ slots, Quiet p any s) ∧ good acc) := by
  induction slots generalizing acc with
  | nil =>
    constructor
    · intro h
      exact .inr ⟨nofun, h [] .nil⟩
    · rintro (⟨before, t, after, heq, -⟩ | ⟨-, h⟩) xs hxs
      · exact absurd (congrArg List.length heq) (by simp)
      · cases hxs
        exact h
  | cons s slots ih =>
    have hstep : (∀ xs, List.Forall₂ (Shows any) (s :: slots) xs → good (lastFound p acc xs)) ↔
        ∀ x, Shows any s x → SureFind p any good slots ∨
          ((∀ s ∈ slots, Quiet p any s) ∧ good (if p x then x else acc)) := by
      constructor
      · intro h x hx
        apply (ih _).mp
        intro xs hxs
        exact h (x :: xs) (.cons hx hxs)
      · intro h xs hxs
        cases hxs with
        | cons hx hxs => exact (ih _).mpr (h _ hx) _ hxs
    rw [hstep, sureFind_cons_iff, List.forall_mem_cons]
    by_cases hsure : SureFind p any good slots
    · exact iff_of_true (fun _ _ => .inl hsure) (.inl (.inr hsure))
    obtain ⟨x, hx⟩ : ∃ x, Shows any s x := by
      cases s with
      | some t => exact ⟨t, rfl⟩
      | none => exact hany
    generalize (∀ s ∈ slots, Quiet p any s) = calm
    by_cases hcalm : calm
    · simp only [hsure, hcalm, false_or, or_false, true_and, and_true]
      exact forall_shows_iff hany hbad s acc
    · simp only [hsure, hcalm, false_and, and_false, or_false]
      exact iff_of_false (fun h => h x hx) nofun

end Perception.Lib
