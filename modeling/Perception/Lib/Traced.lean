import Mathlib.Data.List.Basic

/-!
# Computations that leave a trace and may stop

`Traced ε α` is a computation that records events of type `ε` in order and then
either returns a value or stops without one. A stop models a step after which the
program has no defined behaviour; the events recorded before it remain.
-/
namespace Perception.Lib

set_option autoImplicit false

structure Traced (ε α : Type) where
  log : List ε
  val : Option α
  deriving DecidableEq

namespace Traced

variable {ε α β σ ι : Type}

/-- Record one event. -/
def emit (e : ε) : Traced ε Unit := ⟨[e], some ()⟩

/-- Stop; nothing after this point is defined. -/
def halt : Traced ε α := ⟨[], none⟩

/-- Replace the returned value. -/
def mapVal (f : α → β) (x : Traced ε α) : Traced ε β := ⟨x.log, x.val.map f⟩

instance : Monad (Traced ε) where
  pure a := ⟨[], some a⟩
  bind x f :=
    match x.val with
    | none => ⟨x.log, none⟩
    | some a => ⟨x.log ++ (f a).log, (f a).val⟩

@[simp] theorem log_pure (a : α) : (pure a : Traced ε α).log = [] := rfl
@[simp] theorem val_pure (a : α) : (pure a : Traced ε α).val = some a := rfl
@[simp] theorem log_emit (e : ε) : (emit e).log = [e] := rfl
@[simp] theorem val_emit (e : ε) : (emit e).val = some () := rfl
@[simp] theorem log_halt : (halt : Traced ε α).log = [] := rfl
@[simp] theorem val_halt : (halt : Traced ε α).val = none := rfl

@[ext] theorem ext {x y : Traced ε α} (hl : x.log = y.log) (hv : x.val = y.val) : x = y := by
  cases x
  cases y
  simp_all

theorem bind_of_none {x : Traced ε α} {f : α → Traced ε β} (h : x.val = none) :
    x >>= f = ⟨x.log, none⟩ := by
  change (match x.val with
    | none => (⟨x.log, none⟩ : Traced ε β)
    | some a => ⟨x.log ++ (f a).log, (f a).val⟩) = _
  rw [h]

theorem bind_of_some {x : Traced ε α} {a : α} {f : α → Traced ε β} (h : x.val = some a) :
    x >>= f = ⟨x.log ++ (f a).log, (f a).val⟩ := by
  change (match x.val with
    | none => (⟨x.log, none⟩ : Traced ε β)
    | some a => ⟨x.log ++ (f a).log, (f a).val⟩) = _
  rw [h]

theorem val_bind_of_some {x : Traced ε α} {a : α} {f : α → Traced ε β} (h : x.val = some a) :
    (x >>= f).val = (f a).val := by
  rw [bind_of_some h]

/-- An emitted event comes first. -/
@[simp] theorem emit_bind (e : ε) (f : Unit → Traced ε β) :
    emit e >>= f = ⟨e :: (f ()).log, (f ()).val⟩ := rfl

theorem mapVal_eq_bind (f : α → β) (x : Traced ε α) : x.mapVal f = x >>= fun a => pure (f a) := by
  cases hx : x.val with
  | none => rw [bind_of_none hx]; simp [mapVal, hx]
  | some a => rw [bind_of_some hx]; simp [mapVal, hx]

theorem bind_assoc_traced {γ : Type} (x : Traced ε α) (f : α → Traced ε β) (g : β → Traced ε γ) :
    x >>= f >>= g = x >>= fun a => f a >>= g := by
  cases hx : x.val with
  | none => rw [bind_of_none hx, bind_of_none hx, bind_of_none rfl]
  | some a =>
    rw [bind_of_some hx, bind_of_some hx]
    cases hf : (f a).val with
    | none => rw [bind_of_none rfl, bind_of_none hf]
    | some b =>
      rw [bind_of_some rfl, bind_of_some hf]
      simp [List.append_assoc]

instance : LawfulMonad (Traced ε) :=
  LawfulMonad.mk' (Traced ε)
    (fun x => (mapVal_eq_bind id x).symm.trans (by simp [mapVal]))
    (fun a f => (bind_of_some (val_pure a)).trans (by simp))
    bind_assoc_traced

/-- Only what follows a returned value matters. -/
theorem bind_congr_val {x : Traced ε α} {f g : α → Traced ε β}
    (h : ∀ a, x.val = some a → f a = g a) : x >>= f = x >>= g := by
  cases hx : x.val with
  | none => rw [bind_of_none hx, bind_of_none hx]
  | some a => rw [bind_of_some hx, bind_of_some hx, h a hx]

/-- The events of a sequence are those of its first part, followed, when that part
returned, by those of the second. -/
theorem mem_log_bind {x : Traced ε α} {f : α → Traced ε β} {e : ε} :
    e ∈ (x >>= f).log ↔ e ∈ x.log ∨ ∃ a, x.val = some a ∧ e ∈ (f a).log := by
  cases hx : x.val with
  | none => rw [bind_of_none hx]; simp
  | some a => rw [bind_of_some hx]; simp

theorem val_bind_eq_some {x : Traced ε α} {f : α → Traced ε β} {b : β} :
    (x >>= f).val = some b ↔ ∃ a, x.val = some a ∧ (f a).val = some b := by
  cases hx : x.val with
  | none => rw [bind_of_none hx]; simp
  | some a => rw [bind_of_some hx]; simp

/-- What a loop leaves was left by one of its turns. -/
theorem mem_log_of_forM {f : ι → Traced ε Unit} {xs : List ι} {e : ε} (h : e ∈ (xs.forM f).log) :
    ∃ x ∈ xs, e ∈ (f x).log := by
  induction xs with
  | nil => cases h
  | cons x xs ih =>
    rcases mem_log_bind.mp h with hx | ⟨_, _, hxs⟩
    · exact ⟨x, List.mem_cons_self, hx⟩
    · obtain ⟨y, hy, he⟩ := ih hxs
      exact ⟨y, List.mem_cons_of_mem x hy, he⟩

theorem val_forM_eq_some {f : ι → Traced ε Unit} {xs : List ι} :
    (xs.forM f).val = some () ↔ ∀ x ∈ xs, (f x).val = some () := by
  induction xs with
  | nil => exact iff_of_true rfl nofun
  | cons x xs ih =>
    rw [List.forall_mem_cons, ← ih]
    exact val_bind_eq_some.trans ⟨fun ⟨_, hx, hxs⟩ => ⟨hx, hxs⟩, fun h => ⟨(), h.1, h.2⟩⟩

/-- A loop whose turns all return leaves what each of them does. -/
theorem mem_log_forM {f : ι → Traced ε Unit} {xs : List ι} (hval : ∀ x ∈ xs, (f x).val = some ()) {x : ι} (hx : x ∈ xs)
    {e : ε} (he : e ∈ (f x).log) : e ∈ (xs.forM f).log := by
  induction xs with
  | nil => cases hx
  | cons y xs ih =>
    obtain ⟨hy, hxs⟩ := List.forall_mem_cons.mp hval
    apply mem_log_bind.mpr
    rcases List.mem_cons.mp hx with rfl | hx
    · exact .inl he
    · exact .inr ⟨(), hy, ih hxs hx⟩

/-- What holds of the traces of the turns, and of one trace behind another, holds of the
trace of a loop. -/
theorem log_forM_induction {P : List ε → Prop} (hnil : P []) (happend : ∀ l l', P l → P l' → P (l ++ l'))
    {f : ι → Traced ε Unit} (xs : List ι) (hturn : ∀ x ∈ xs, P (f x).log) : P (xs.forM f).log := by
  induction xs with
  | nil => exact hnil
  | cons x xs ih =>
    obtain ⟨hx, hxs⟩ := List.forall_mem_cons.mp hturn
    have hlog : ((x :: xs).forM f).log = (f x >>= fun _ => xs.forM f).log := rfl
    rw [hlog]
    cases hval : (f x).val with
    | none => rwa [bind_of_none hval]
    | some u =>
      rw [bind_of_some hval]
      exact happend _ _ hx (ih hxs)

/-- A loop all of whose events are as they are where a turn returns: every turn returns. -/
theorem val_of_log_forM {f : ι → Traced ε Unit} {Q : ε → Prop} {xs : List ι}
    (hturn : ∀ x ∈ xs, (∀ e ∈ (f x).log, Q e) → (f x).val = some ())
    (hlog : ∀ e ∈ (xs.forM f).log, Q e) : ∀ x ∈ xs, (f x).val = some () := by
  induction xs with
  | nil => exact nofun
  | cons x xs ih =>
    obtain ⟨hx, hxs⟩ := List.forall_mem_cons.mp hturn
    have hval : (f x).val = some () := hx fun e he => hlog e (mem_log_bind.mpr (.inl he))
    refine List.forall_mem_cons.mpr ⟨hval, ih hxs fun e he => ?_⟩
    exact hlog e (mem_log_bind.mpr (.inr ⟨(), hval, he⟩))

/-- Every event is as it should be, and a value is returned. -/
def Safe (Q : ε → Prop) (x : Traced ε α) : Prop := (∀ e ∈ x.log, Q e) ∧ x.val.isSome

theorem safe_pure {Q : ε → Prop} (a : α) : Safe Q (pure a) := ⟨nofun, rfl⟩

theorem not_safe_halt {Q : ε → Prop} : ¬Safe Q (halt : Traced ε α) := fun h => Bool.false_ne_true h.2

/-- A sequence is safe if its first part is, and what follows the value of that part. -/
theorem safe_bind_iff {Q : ε → Prop} {x : Traced ε α} {f : α → Traced ε β} :
    Safe Q (x >>= f) ↔ (∀ e ∈ x.log, Q e) ∧ ∃ a, x.val = some a ∧ Safe Q (f a) := by
  cases hx : x.val with
  | none =>
    rw [bind_of_none hx]
    refine iff_of_false (fun h => Bool.false_ne_true h.2) ?_
    rintro ⟨-, a, ha, -⟩
    cases ha
  | some a =>
    rw [bind_of_some hx]
    simp only [Safe, List.mem_append, or_imp, forall_and, Option.some.injEq, exists_eq_left', and_assoc]

section Runs

variable {step : σ → ι → Traced ε σ} {I : σ → Prop}

/-- A run whose steps keep an invariant, record a known list of events and return:
the whole run does so too. -/
theorem foldlM_of_step {ev : ι → List ε} (xs : List ι)
    (hstep : ∀ s, I s → ∀ x ∈ xs, (step s x).log = ev x ∧ ∃ s', (step s x).val = some s' ∧ I s')
    (s : σ) (hs : I s) :
    (xs.foldlM step s).log = xs.flatMap ev ∧ ∃ s', (xs.foldlM step s).val = some s' ∧ I s' := by
  induction xs generalizing s with
  | nil => exact ⟨rfl, s, rfl, hs⟩
  | cons x xs ih =>
    obtain ⟨hlog, s₁, hval, hs₁⟩ := hstep s hs x List.mem_cons_self
    obtain ⟨hlog', hret⟩ := ih (fun t ht y hy => hstep t ht y (List.mem_cons_of_mem x hy)) s₁ hs₁
    rw [List.foldlM_cons, bind_of_some hval]
    exact ⟨by rw [List.flatMap_cons, hlog, hlog'], hret⟩

/-- An invariant of the steps holds wherever a run returns, and a property of every
event of a step from such a state holds of every event of the run. -/
theorem foldlM_invariant {Q : ε → Prop} (xs : List ι)
    (hstep : ∀ s, I s → ∀ x ∈ xs, (∀ e ∈ (step s x).log, Q e) ∧
      ∀ s', (step s x).val = some s' → I s') (s : σ) (hs : I s) :
    (∀ e ∈ (xs.foldlM step s).log, Q e) ∧ ∀ s', (xs.foldlM step s).val = some s' → I s' := by
  induction xs generalizing s with
  | nil =>
    refine ⟨fun e he => by simp at he, fun s' h => ?_⟩
    cases h
    exact hs
  | cons x xs ih =>
    obtain ⟨hev, hnext⟩ := hstep s hs x List.mem_cons_self
    have hrest := fun t ht => ih (fun u hu y hy => hstep u hu y (List.mem_cons_of_mem x hy)) t ht
    rw [List.foldlM_cons]
    constructor
    · intro e he
      rcases mem_log_bind.mp he with h | ⟨t, ht, h⟩
      · exact hev e h
      · exact (hrest t (hnext t ht)).1 e h
    · intro s' h
      obtain ⟨t, ht, h⟩ := val_bind_eq_some.mp h
      exact (hrest t (hnext t ht)).2 s' h

/-- `P` holds of the state and the input at every step that a run takes. -/
def AtEachStep (step : σ → ι → Traced ε σ) (P : σ → ι → Prop) (s : σ) (xs : List ι) : Prop :=
  ∀ pre x post, xs = pre ++ x :: post → ∀ s', (pre.foldlM step s).val = some s' → P s' x

theorem atEachStep_nil {P : σ → ι → Prop} (s : σ) : AtEachStep step P s [] := by
  intro pre x post h
  simp at h

theorem atEachStep_cons {P : σ → ι → Prop} {s : σ} {x : ι} {xs : List ι} :
    AtEachStep step P s (x :: xs) ↔
      P s x ∧ ∀ s', (step s x).val = some s' → AtEachStep step P s' xs := by
  constructor
  · intro h
    refine ⟨h [] x xs rfl s rfl, fun s' hs' pre y post hxs t ht => ?_⟩
    apply h (x :: pre) y post (by rw [hxs, List.cons_append]) t
    rw [List.foldlM_cons]
    exact val_bind_eq_some.mpr ⟨s', hs', ht⟩
  · rintro ⟨h0, h⟩ pre y post hxs t ht
    cases pre with
    | nil =>
      obtain ⟨rfl, rfl⟩ := List.cons.inj hxs
      cases ht
      exact h0
    | cons z pre =>
      obtain ⟨rfl, rfl⟩ := List.cons.inj hxs
      rw [List.foldlM_cons] at ht
      obtain ⟨s', hs', ht⟩ := val_bind_eq_some.mp ht
      exact h s' hs' pre y post rfl t ht

theorem AtEachStep.mono {P P' : σ → ι → Prop} {s : σ} {xs : List ι} (h : AtEachStep step P s xs)
    (himp : ∀ s x, P s x → P' s x) : AtEachStep step P' s xs := fun pre x post he s' hs' =>
  himp s' x (h pre x post he s' hs')

/-- What holds of every event of a run holds of every event of each of its steps. -/
theorem forall_mem_log_foldlM_iff {Q : ε → Prop} {s : σ} {xs : List ι} :
    (∀ e ∈ (xs.foldlM step s).log, Q e) ↔ AtEachStep step (fun s x => ∀ e ∈ (step s x).log, Q e) s xs := by
  induction xs generalizing s with
  | nil => exact iff_of_true nofun (atEachStep_nil s)
  | cons x xs ih =>
    rw [atEachStep_cons, List.foldlM_cons]
    constructor
    · intro h
      refine ⟨fun e he => h e (mem_log_bind.mpr (.inl he)), fun s' hs' => ih.mp fun e he => ?_⟩
      exact h e (mem_log_bind.mpr (.inr ⟨s', hs', he⟩))
    · intro ⟨hfirst, hrest⟩ e he
      rcases mem_log_bind.mp he with he | ⟨s', hs', he⟩
      · exact hfirst e he
      · exact ih.mpr (hrest s' hs') e he

end Runs

end Traced

end Perception.Lib
