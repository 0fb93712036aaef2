import Mathlib.Data.List.Forall2

/-!
# State that survives an exception

Rules for `EStateM ε σ`, where an exception leaves the state as it was at the throw:
inversion of a sequence, exceptions of pure code, computations on a part of the state,
and an invariant carried through a loop.
-/
namespace Perception.Lib.StateExcept

set_option autoImplicit false

variable {ε σ τ α β ι : Type}

/-- The state that a computation leaves, however it ends. -/
def stateOf : EStateM.Result ε σ α → σ
  | .ok _ s => s
  | .error _ s => s

theorem bind_eq_ok {x : EStateM ε σ α} {f : α → EStateM ε σ β} {s s' : σ} {b : β} :
    (x >>= f) s = .ok b s' ↔ ∃ a s₁, x s = .ok a s₁ ∧ f a s₁ = .ok b s' := by
  show EStateM.bind x f s = .ok b s' ↔ _
  unfold EStateM.bind
  cases x s with
  | ok a s₁ => simp
  | error e s₁ => simp

theorem bind_of_ok {x : EStateM ε σ α} {f : α → EStateM ε σ β} {s s₁ : σ} {a : α}
    (h : x s = .ok a s₁) : (x >>= f) s = f a s₁ := by
  show EStateM.bind x f s = _
  unfold EStateM.bind
  rw [h]

theorem bind_of_error {x : EStateM ε σ α} {f : α → EStateM ε σ β} {s s₁ : σ} {e : ε}
    (h : x s = .error e s₁) : (x >>= f) s = .error e s₁ := by
  show EStateM.bind x f s = _
  unfold EStateM.bind
  rw [h]

/-- A relation between the states before and after, carried through a sequence however it
ends. -/
theorem stateOf_bind_rel {R : σ → σ → Prop} (htrans : ∀ {s s₁ s' : σ}, R s s₁ → R s₁ s' → R s s')
    {x : EStateM ε σ α} {f : α → EStateM ε σ β} {s : σ} (hx : R s (stateOf (x s)))
    (hf : ∀ a s₁, x s = .ok a s₁ → R s₁ (stateOf (f a s₁))) : R s (stateOf ((x >>= f) s)) := by
  cases hr : x s with
  | ok a s₁ =>
    rw [hr] at hx
    rw [bind_of_ok hr]
    exact htrans hx (hf a s₁ hr)
  | error e s₁ =>
    rw [hr] at hx
    rw [bind_of_error hr]
    exact hx

theorem stateOf_map (f : α → β) (x : EStateM ε σ α) (s : σ) : stateOf ((f <$> x) s) = stateOf (x s) := by
  show stateOf (EStateM.map f x s) = _
  unfold EStateM.map
  cases x s <;> rfl

theorem except_ok_bind (a : α) (f : α → Except ε β) : (Except.ok a >>= f) = f a := rfl

theorem except_bind_eq_ok {x : Except ε α} {f : α → Except ε β} {b : β} :
    (x >>= f) = .ok b ↔ ∃ a, x = .ok a ∧ f a = .ok b := by
  show Except.bind x f = .ok b ↔ _
  cases x <;> simp [Except.bind]

theorem except_bind_eq_error {x : Except ε α} {f : α → Except ε β} {e : ε} :
    (x >>= f) = .error e ↔ x = .error e ∨ ∃ a, x = .ok a ∧ f a = .error e := by
  show Except.bind x f = .error e ↔ _
  cases x <;> simp [Except.bind]

theorem mapM_eq_ok {f : α → Except ε β} {xs : List α} {ys : List β} :
    xs.mapM f = .ok ys ↔ List.Forall₂ (fun x y => f x = .ok y) xs ys := by
  induction xs generalizing ys with
  | nil =>
    rw [List.mapM_nil, List.forall₂_nil_left_iff]
    exact ⟨fun h => (Except.ok.inj h).symm, fun h => congrArg _ h.symm⟩
  | cons x xs ih =>
    rw [List.mapM_cons, except_bind_eq_ok]
    constructor
    · rintro ⟨y, hy, h⟩
      obtain ⟨zs, hzs, h⟩ := except_bind_eq_ok.mp h
      obtain rfl : y :: zs = ys := Except.ok.inj h
      exact .cons hy (ih.mp hzs)
    · intro h
      cases h with
      | cons hy hrest => exact ⟨_, hy, except_bind_eq_ok.mpr ⟨_, ih.mpr hrest, rfl⟩⟩

theorem mapM_eq_some {f : α → Option β} {xs : List α} {ys : List β} :
    xs.mapM f = some ys ↔ List.Forall₂ (fun x y => f x = some y) xs ys := by
  induction xs generalizing ys with
  | nil =>
    rw [List.mapM_nil, List.forall₂_nil_left_iff]
    exact ⟨fun h => (Option.some.inj h).symm, fun h => congrArg _ h.symm⟩
  | cons x xs ih =>
    rw [List.mapM_cons, Option.bind_eq_bind, Option.bind_eq_some_iff]
    constructor
    · rintro ⟨y, hy, h⟩
      obtain ⟨zs, hzs, h⟩ := Option.bind_eq_some_iff.mp h
      obtain rfl : y :: zs = ys := Option.some.inj h
      exact .cons hy (ih.mp hzs)
    · intro h
      cases h with
      | cons hy hrest => exact ⟨_, hy, Option.bind_eq_some_iff.mpr ⟨_, ih.mpr hrest, rfl⟩⟩

/-- A pass over a list whose results are related to another list, element by element. -/
theorem mapM_related_iff {γ : Type} {f : α → Except ε β} {P : γ → β → Prop} {xs : List α} {zs : List γ} :
    (∃ ys, xs.mapM f = .ok ys ∧ List.Forall₂ P zs ys) ↔
      List.Forall₂ (fun z x => ∃ y, f x = .ok y ∧ P z y) zs xs := by
  constructor
  · rintro ⟨ys, hys, hP⟩
    induction hP generalizing xs with
    | nil =>
      cases mapM_eq_ok.mp hys
      exact .nil
    | cons hzy _ ih =>
      cases mapM_eq_ok.mp hys with
      | cons hxy hrest => exact .cons ⟨_, hxy, hzy⟩ (ih (mapM_eq_ok.mpr hrest))
  · intro h
    induction h with
    | nil => exact ⟨[], rfl, .nil⟩
    | cons hzx _ ih =>
      obtain ⟨y, hy, hzy⟩ := hzx
      obtain ⟨ys, hys, hP⟩ := ih
      exact ⟨y :: ys, mapM_eq_ok.mpr (.cons hy (mapM_eq_ok.mp hys)), .cons hzy hP⟩

/-- Pure code that may throw. -/
def fromExcept : Except ε α → EStateM ε σ α
  | .ok a => pure a
  | .error e => throw e

theorem fromExcept_eq_ok {x : Except ε α} {s s' : σ} {a : α} :
    (fromExcept x : EStateM ε σ α) s = .ok a s' ↔ x = .ok a ∧ s = s' := by
  cases x with
  | ok b =>
    show EStateM.Result.ok b s = .ok a s' ↔ _
    simp
  | error e =>
    show EStateM.Result.error e s = .ok a s' ↔ _
    simp

/-- A computation on a part of the state. -/
def zoom (get : σ → τ) (set : σ → τ → σ) (x : EStateM ε τ α) : EStateM ε σ α := fun s =>
  match x (get s) with
  | .ok a t => .ok a (set s t)
  | .error e t => .error e (set s t)

theorem zoom_eq_ok {get : σ → τ} {set : σ → τ → σ} {x : EStateM ε τ α} {s s' : σ} {a : α} :
    zoom get set x s = .ok a s' ↔ ∃ t, x (get s) = .ok a t ∧ s' = set s t := by
  unfold zoom
  cases x (get s) with
  | ok b t => simp [eq_comm]
  | error e t => simp

theorem forM_cons_of_ok {f : ι → EStateM ε σ PUnit} {x : ι} (xs : List ι) {s s₁ : σ}
    (h : f x s = .ok ⟨⟩ s₁) : (x :: xs).forM f s = xs.forM f s₁ := bind_of_ok h

theorem forM_cons_of_error {f : ι → EStateM ε σ PUnit} {x : ι} (xs : List ι) {s s₁ : σ} {e : ε}
    (h : f x s = .error e s₁) : (x :: xs).forM f s = .error e s₁ := bind_of_error h

theorem forM_cons_eq_ok {f : ι → EStateM ε σ PUnit} {x : ι} {xs : List ι} {s s' : σ} :
    (x :: xs).forM f s = .ok ⟨⟩ s' ↔ ∃ s₁, f x s = .ok ⟨⟩ s₁ ∧ xs.forM f s₁ = .ok ⟨⟩ s' := by
  constructor
  · intro h
    obtain ⟨_, s₁, h₁, h₂⟩ := bind_eq_ok.mp h
    exact ⟨s₁, h₁, h₂⟩
  · rintro ⟨s₁, h₁, h₂⟩
    exact (forM_cons_of_ok xs h₁).trans h₂

/-- An invariant of the turns of a loop that returns. -/
theorem forM_invariant {f : ι → EStateM ε σ PUnit} {I : σ → Prop} (xs : List ι)
    (hstep : ∀ x ∈ xs, ∀ s s', I s → f x s = .ok ⟨⟩ s' → I s') {s s' : σ} (hs : I s)
    (h : xs.forM f s = .ok ⟨⟩ s') : I s' := by
  induction xs generalizing s with
  | nil =>
    cases h
    exact hs
  | cons x xs ih =>
    obtain ⟨_, s₁, hx, hxs⟩ := bind_eq_ok.mp h
    have h₁ := hstep x List.mem_cons_self s s₁ hs hx
    exact ih (fun y hy => hstep y (List.mem_cons_of_mem x hy)) h₁ hxs

/-- A relation between the states before and after, carried through a loop however it
ends. -/
theorem stateOf_forM_rel {R : σ → σ → Prop} (hrefl : ∀ s, R s s)
    (htrans : ∀ {s s₁ s' : σ}, R s s₁ → R s₁ s' → R s s') {f : ι → EStateM ε σ PUnit} (xs : List ι)
    (hstep : ∀ x ∈ xs, ∀ s, R s (stateOf (f x s))) (s : σ) : R s (stateOf (xs.forM f s)) := by
  induction xs generalizing s with
  | nil => exact hrefl s
  | cons x xs ih =>
    obtain ⟨hx, hxs⟩ := List.forall_mem_cons.mp hstep
    exact stateOf_bind_rel (R := R) htrans (hx s) fun _ s₁ _ => ih hxs s₁

end Perception.Lib.StateExcept
