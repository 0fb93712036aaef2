import Mathlib.Data.List.Basic
import Mathlib.Logic.Relation

/-!
# Histories of a step function

A step that cannot be made is none. A property of every state of a history, a condition on
every step in the state where it is made, and the rules that lead from an invariant to
either; the states that allowed steps lead to.
-/
namespace Perception.Lib.History

set_option autoImplicit false

variable {σ ι : Type} (step : σ → ι → Option σ)

/-- The state after all the steps. -/
def run (s : σ) (es : List ι) : Option σ := es.foldlM step s

/-- A property of the first state and of the state after each step. -/
def Always (P : σ → Prop) (s : σ) (es : List ι) : Prop :=
  ∀ pre post s', es = pre ++ post → run step s pre = some s' → P s'

/-- A condition on each step, in the state that it is made in. -/
def EachStep (C : σ → ι → Prop) (s : σ) (es : List ι) : Prop :=
  ∀ pre e post s', es = pre ++ e :: post → run step s pre = some s' → C s' e

variable {step} {s s' : σ} {e : ι} {es : List ι} {I P : σ → Prop} {C D : σ → ι → Prop}

theorem run_nil : run step s [] = some s := rfl

theorem run_cons_eq_some : run step s (e :: es) = some s' ↔ ∃ s₁, step s e = some s₁ ∧ run step s₁ es = some s' := by
  unfold run
  rw [List.foldlM_cons]
  exact Option.bind_eq_some_iff

theorem always_nil : Always step P s [] ↔ P s := by
  constructor
  · intro h
    exact h [] [] s rfl rfl
  · intro hs pre post s' hes hrun
    obtain ⟨rfl, rfl⟩ := List.append_eq_nil_iff.mp hes.symm
    cases hrun
    exact hs

theorem always_cons : Always step P s (e :: es) ↔ P s ∧ ∀ s₁, step s e = some s₁ → Always step P s₁ es := by
  constructor
  · intro h
    refine ⟨h [] (e :: es) s rfl rfl, fun s₁ hstep pre post s' hes hrun => ?_⟩
    apply h (e :: pre) post s'
    · rw [hes, List.cons_append]
    · exact run_cons_eq_some.mpr ⟨s₁, hstep, hrun⟩
  · intro h pre post s' hes hrun
    cases pre with
    | nil =>
      cases hrun
      exact h.1
    | cons e' pre =>
      rw [List.cons_append] at hes
      obtain ⟨rfl, htail⟩ := List.cons.inj hes
      obtain ⟨s₁, hstep, hrun⟩ := run_cons_eq_some.mp hrun
      exact h.2 s₁ hstep pre post s' htail hrun

theorem eachStep_nil : EachStep step C s [] := by
  intro pre e post s' hes
  cases pre with
  | nil => cases hes
  | cons e' pre => cases hes

theorem eachStep_cons :
    EachStep step C s (e :: es) ↔ C s e ∧ ∀ s₁, step s e = some s₁ → EachStep step C s₁ es := by
  constructor
  · intro h
    refine ⟨h [] e es s rfl rfl, fun s₁ hstep pre e' post s' hes hrun => ?_⟩
    apply h (e :: pre) e' post s'
    · rw [hes, List.cons_append]
    · exact run_cons_eq_some.mpr ⟨s₁, hstep, hrun⟩
  · intro h pre e' post s' hes hrun
    cases pre with
    | nil =>
      rw [List.nil_append] at hes
      obtain ⟨rfl, rfl⟩ := List.cons.inj hes
      cases hrun
      exact h.1
    | cons e₀ pre =>
      rw [List.cons_append] at hes
      obtain ⟨rfl, htail⟩ := List.cons.inj hes
      obtain ⟨s₁, hstep, hrun⟩ := run_cons_eq_some.mp hrun
      exact h.2 s₁ hstep pre e' post s' htail hrun

theorem run_cons_of_step (h : step s e = some s') : run step s (e :: es) = run step s' es := by
  unfold run
  rw [List.foldlM_cons, h]
  rfl

theorem eachStep_cons_of_step (h : step s e = some s') :
    EachStep step C s (e :: es) ↔ C s e ∧ EachStep step C s' es := by
  rw [eachStep_cons, h]
  simp only [Option.some.injEq, forall_eq']

/-- A condition on the steps alone. -/
theorem eachStep_iff_forall_mem {Q : ι → Prop} (hrun : run step s es = some s') :
    EachStep step (fun _ e => Q e) s es ↔ ∀ e ∈ es, Q e := by
  induction es generalizing s with
  | nil => exact iff_of_true eachStep_nil nofun
  | cons e es ih =>
    obtain ⟨s₁, h₁, hrun⟩ := run_cons_eq_some.mp hrun
    rw [eachStep_cons_of_step h₁, ih hrun, List.forall_mem_cons]

/-- An invariant that the allowed steps keep holds in every state of a history of them. -/
theorem always_of_eachStep (hstep : ∀ s e s', I s → C s e → step s e = some s' → I s') (hs : I s)
    (h : EachStep step C s es) : Always step I s es := by
  induction es generalizing s with
  | nil => exact always_nil.mpr hs
  | cons e es ih =>
    obtain ⟨hnow, hnext⟩ := eachStep_cons.mp h
    exact always_cons.mpr ⟨hs, fun s₁ h₁ => ih (hstep s e s₁ hs hnow h₁) (hnext s₁ h₁)⟩

theorem Always.mono (h : Always step I s es) (himp : ∀ s, I s → P s) : Always step P s es :=
  fun pre post s' hes hrun => himp s' (h pre post s' hes hrun)

/-- Two conditions that agree wherever the invariant holds. -/
theorem eachStep_congr (hstep : ∀ s e s', I s → step s e = some s' → I s') (hs : I s)
    (h : ∀ s e, I s → (C s e ↔ D s e)) : EachStep step C s es ↔ EachStep step D s es := by
  induction es generalizing s with
  | nil => exact iff_of_true eachStep_nil eachStep_nil
  | cons e es ih =>
    rw [eachStep_cons, eachStep_cons, h s e hs]
    exact and_congr_right fun _ => forall_congr' fun s₁ => forall_congr' fun h₁ => ih (hstep s e s₁ hs h₁)

/-- Where a step that is not allowed ends in a state without the property, a history with
the property has allowed steps only. -/
theorem eachStep_of_always (hstep : ∀ s e s', I s → C s e → step s e = some s' → I s')
    (hbad : ∀ s e s', I s → D s e → step s e = some s' → P s' → C s e) (hs : I s)
    (hrun : run step s es = some s') (hD : EachStep step D s es) (h : Always step P s es) : EachStep step C s es := by
  induction es generalizing s with
  | nil => exact eachStep_nil
  | cons e es ih =>
    obtain ⟨s₁, h₁, hrun⟩ := run_cons_eq_some.mp hrun
    obtain ⟨-, hnext⟩ := always_cons.mp h
    obtain ⟨hDnow, hDnext⟩ := eachStep_cons.mp hD
    have hP₁ : P s₁ := by
      apply hnext s₁ h₁ [] es s₁
      · rfl
      · rfl
    have hnow : C s e := hbad s e s₁ hs hDnow h₁ hP₁
    refine eachStep_cons.mpr ⟨hnow, fun s₂ h₂ => ?_⟩
    rw [h₁] at h₂
    obtain rfl := Option.some.inj h₂
    exact ih (hstep s e s₁ hs hnow h₁) hrun (hDnext s₁ h₁) (hnext s₁ h₁)

/-- Allowed steps lead from one state to the other. -/
def Leads (step : σ → ι → Option σ) (Q : ι → Prop) : σ → σ → Prop :=
  Relation.ReflTransGen fun s s' => ∃ e, Q e ∧ step s e = some s'

variable {s₁ : σ} {Q R : ι → Prop}

theorem Leads.refl : Leads step Q s s := Relation.ReflTransGen.refl

theorem Leads.trans (h : Leads step Q s s₁) (h' : Leads step Q s₁ s') : Leads step Q s s' :=
  Relation.ReflTransGen.trans h h'

theorem leads_of_step (he : Q e) (hstep : step s e = some s') : Leads step Q s s' :=
  Relation.ReflTransGen.single ⟨e, he, hstep⟩

theorem leads_of_run (hQ : ∀ e ∈ es, Q e) (hrun : run step s es = some s') : Leads step Q s s' := by
  induction es generalizing s with
  | nil =>
    cases hrun
    exact .refl
  | cons e es ih =>
    obtain ⟨s₁, h₁, hrun⟩ := run_cons_eq_some.mp hrun
    obtain ⟨he, hQ⟩ := List.forall_mem_cons.mp hQ
    exact (leads_of_step he h₁).trans (ih hQ hrun)

/-- An invariant that the allowed steps keep. -/
theorem Leads.keeps (h : Leads step Q s s') (hs : I s) (hstep : ∀ s e s', I s → Q e → step s e = some s' → I s') :
    I s' := by
  induction h with
  | refl => exact hs
  | tail _ hlast ih =>
    obtain ⟨e, he, hlast⟩ := hlast
    exact hstep _ e _ ih he hlast

theorem Leads.mono (h : Leads step Q s s') (hQR : ∀ e, Q e → R e) : Leads step R s s' := by
  induction h with
  | refl => exact .refl
  | tail _ hlast ih =>
    obtain ⟨e, he, hlast⟩ := hlast
    exact ih.trans (leads_of_step (hQR e he) hlast)

end Perception.Lib.History
