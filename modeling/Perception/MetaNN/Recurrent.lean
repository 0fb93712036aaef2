import Perception.MetaNN.WeightLaws

/-!
# Recurrent layers

A step is run over a sequence. Going back, the gradient of a hidden state is kept for the step before.
-/
namespace Perception.MetaNN

set_option autoImplicit false

open Perception.Lib.StateExcept Perception.Lib.Wiring

section

variable {V W S : Type}

structure RecurrentObj (S V : Type) where
  m_step : S
  /-- The hidden state while the layer goes forward, its gradient while it goes back; none is empty. -/
  m_hiddens : Option V
  m_inForward : Bool

/-- The input with the hidden state that is kept in place of a `NullParameter`. -/
def RecurrentObj.realIn (obj : RecurrentObj S V) (p_in : VarTypeDict Port V) : Except Fault (VarTypeDict Port V) :=
  match p_in .RnnLayerHiddenBefore with
  | some _ => .ok p_in
  | none => do
    let hiddens ← asserted obj.m_hiddens
    .ok (p_in.Set .RnnLayerHiddenBefore (some hiddens))

/-- `FeedStepBackward`: the gradient of the hidden state goes to `hiddens`. -/
def FeedStepBackward (step : LayerOps Port V W S) (p_grad : VarTypeDict Port V) (obj : RecurrentObj S V) :
    Except Fault (VarTypeDict Port V × RecurrentObj S V) := do
  let (res, m_step) ← step.FeedBackward p_grad obj.m_step
  let hiddens ← res.Get .RnnLayerHiddenBefore
  let input ← res.Get .LayerIo
  .ok (output input, ⟨m_step, some hiddens, obj.m_inForward⟩)

/-- The layer with `UseBptt`. -/
def RecurrentLayer [Plus V] (step : LayerOps Port V W S) : LayerOps Port V W (RecurrentObj S V) where
  FeedForward p_in obj := do
    let real_in ← obj.realIn p_in
    let (res, m_step) ← step.FeedForward real_in obj.m_step
    let hiddens ← res.Get .LayerIo
    .ok (res, ⟨m_step, some hiddens, true⟩)
  FeedBackward p_grad obj :=
    if obj.m_inForward then FeedStepBackward step p_grad { obj with m_inForward := false }
    else do
      let gradVal ← p_grad.Get .LayerIo
      let hiddens ← asserted obj.m_hiddens
      let newGrad ← asserted (Plus.plus gradVal hiddens)
      FeedStepBackward step (output newGrad) obj
  GradCollect obj := ((step.GradCollect obj.m_step).1, { obj with m_step := (step.GradCollect obj.m_step).2 })
  NeutralInvariant obj := step.NeutralInvariant obj.m_step

/-- What a step takes in; without a hidden state the layer takes the one it keeps. -/
def gruInput (hidden : Option V) (u : V) : VarTypeDict Port V :=
  (output u).Set .RnnLayerHiddenBefore hidden

/-- The inputs of a sequence: only the first may come with a hidden state. -/
def inputsFrom : Option V → List V → List (VarTypeDict Port V)
  | _, [] => []
  | hidden, u :: us => gruInput hidden u :: inputsFrom none us

variable {Name : Type}

def FeedForwardAll (ops : LayerOps Name V W S) :
    List (VarTypeDict Name V) → S → Except Fault (List (VarTypeDict Name V) × S)
  | [], obj => .ok ([], obj)
  | x :: xs, obj => do
    let (y, obj) ← ops.FeedForward x obj
    let (ys, obj) ← FeedForwardAll ops xs obj
    .ok (y :: ys, obj)

/-- The gradients are in the order of the forward steps; the last goes back first. -/
def FeedBackwardAll (ops : LayerOps Name V W S) :
    List (VarTypeDict Name V) → S → Except Fault (List (VarTypeDict Name V) × S)
  | [], obj => .ok ([], obj)
  | grad :: grads, obj => do
    let (gins, obj) ← FeedBackwardAll ops grads obj
    let (gin, obj) ← ops.FeedBackward grad obj
    .ok (gin :: gins, obj)

/-- The hidden states that the steps give one after the other. -/
inductive Unrolled (M : Meaning Port V W) (θ : W → V) : V → List V → List V → Prop where
  | nil (h : V) : Unrolled M θ h [] []
  | cons {h u h' : V} {us hs : List V} {y : VarTypeDict Port V} : M.Eval θ (gruInput (some h) u) y → y .LayerIo = some h' →
      Unrolled M θ h' us hs → Unrolled M θ h (u :: us) (h' :: hs)

variable [Plus V] {step : LayerOps Port V W S} {obj obj' : RecurrentObj S V}

omit [Plus V] in
theorem realIn_gruInput {hidden : Option V} {u : V} {real_in : VarTypeDict Port V}
    (h : obj.realIn (gruInput hidden u) = .ok real_in) :
    ∃ h, hidden.or obj.m_hiddens = some h ∧ real_in = gruInput (some h) u := by
  cases hidden with
  | some v => exact ⟨v, rfl, (Except.ok.inj h).symm⟩
  | none =>
    obtain ⟨hiddens, hkept, h⟩ := except_bind_eq_ok.mp h
    refine ⟨hiddens, asserted_eq_ok.mp hkept, ?_⟩
    rw [← Except.ok.inj h]
    exact Function.update_idem _ _ _

theorem RecurrentLayer_forward {hidden : Option V} {u : V} {y : VarTypeDict Port V}
    (h : (RecurrentLayer step).FeedForward (gruInput hidden u) obj = .ok (y, obj')) :
    ∃ h m_step h', hidden.or obj.m_hiddens = some h ∧
      step.FeedForward (gruInput (some h) u) obj.m_step = .ok (y, m_step) ∧ y .LayerIo = some h' ∧
      obj' = ⟨m_step, some h', true⟩ := by
  obtain ⟨real_in, hreal, h⟩ := except_bind_eq_ok.mp h
  obtain ⟨h₀, hkept, rfl⟩ := realIn_gruInput hreal
  obtain ⟨⟨res, m_step⟩, hstep, h⟩ := except_bind_eq_ok.mp h
  obtain ⟨hiddens, hget, h⟩ := except_bind_eq_ok.mp h
  obtain ⟨rfl, rfl⟩ := Prod.mk.inj (Except.ok.inj h)
  exact ⟨h₀, m_step, hiddens, hkept, hstep, get_eq_ok.mp hget, rfl⟩

/-- The gradient of the hidden state that the next step back adds. -/
def carried (obj : RecurrentObj S V) : Option V := if obj.m_inForward then none else obj.m_hiddens

/-- The gradient that a step back gets: with the one that is carried. -/
def withCarried (grad : V) : Option V → Option V
  | none => some grad
  | some hiddens => Plus.plus grad hiddens

theorem RecurrentLayer_backward {grad : V} {gin : VarTypeDict Port V}
    (h : (RecurrentLayer step).FeedBackward (output grad) obj = .ok (gin, obj')) :
    ∃ g res m_step hiddens input, withCarried grad (carried obj) = some g ∧
      step.FeedBackward (output g) obj.m_step = .ok (res, m_step) ∧ res .RnnLayerHiddenBefore = some hiddens ∧
      res .LayerIo = some input ∧ gin = output input ∧ obj' = ⟨m_step, some hiddens, false⟩ := by
  have hstep : ∃ g, withCarried grad (carried obj) = some g ∧
      FeedStepBackward step (output g) { obj with m_inForward := false } = .ok (gin, obj') := by
    unfold carried
    cases hforward : obj.m_inForward with
    | true =>
      refine ⟨grad, rfl, ?_⟩
      simpa [RecurrentLayer, hforward] using h
    | false =>
      simp only [RecurrentLayer, hforward, Bool.false_eq_true, if_false] at h
      obtain ⟨gradVal, hgrad, h⟩ := except_bind_eq_ok.mp h
      obtain rfl : grad = gradVal := Option.some.inj (get_eq_ok.mp hgrad)
      obtain ⟨hiddens, hkept, h⟩ := except_bind_eq_ok.mp h
      obtain ⟨newGrad, hplus, h⟩ := except_bind_eq_ok.mp h
      refine ⟨newGrad, ?_, ?_⟩
      · rw [asserted_eq_ok.mp hkept]
        exact asserted_eq_ok.mp hplus
      · rw [← hforward]
        exact h
  obtain ⟨g, hg, hstep⟩ := hstep
  obtain ⟨⟨res, m_step⟩, hback, hstep⟩ := except_bind_eq_ok.mp hstep
  obtain ⟨hiddens, hhidden, hstep⟩ := except_bind_eq_ok.mp hstep
  obtain ⟨input, hinput, hstep⟩ := except_bind_eq_ok.mp hstep
  obtain ⟨rfl, rfl⟩ := Prod.mk.inj (Except.ok.inj hstep)
  exact ⟨g, res, m_step, hiddens, input, hg, hback, get_eq_ok.mp hhidden, get_eq_ok.mp hinput, rfl, rfl⟩

end

section

variable {W S : Type}

/-- Gradients on velocities, one after the other. -/
noncomputable def paired (gs : List (Matrix ℝ)) (ds : List (Nat → Nat → ℝ)) : ℝ := (List.zipWith Matrix.inner gs ds).sum

theorem paired_cons (g : Matrix ℝ) (gs : List (Matrix ℝ)) (d : Nat → Nat → ℝ) (ds : List (Nat → Nat → ℝ)) :
    paired (g :: gs) (d :: ds) = Matrix.inner g d + paired gs ds := by
  simp [paired]

/-- Weights, a hidden state and inputs that move, and the hidden states that the steps give then. -/
structure SequencePath (M : Meaning Port (Matrix ℝ) W) (IsUpdate : W → Bool) (θ : W → Matrix ℝ) (h : Matrix ℝ)
    (us : List (Matrix ℝ)) (Θ : ℝ → W → Matrix ℝ) (p : W → Nat → Nat → ℝ) (H : ℝ → Matrix ℝ) (dh : Nat → Nat → ℝ)
    (Us : List (ℝ → Matrix ℝ)) (dus : List (Nat → Nat → ℝ)) (Hs : List (ℝ → Matrix ℝ)) : Prop where
  weights_start : Θ 0 = θ
  hidden_start : H 0 = h
  inputs_start : Us.map (fun U => U 0) = us
  eval : ∀ τ, Unrolled M (Θ τ) (H τ) (Us.map fun U => U τ) (Hs.map fun H => H τ)
  weights : ∀ i, Matrix.HasVelocity (fun τ => Θ τ i) (p i)
  hidden : Matrix.HasVelocity H dh
  inputs : List.Forall₂ Matrix.HasVelocity Us dus
  still_weights : ∀ i, IsUpdate i = true ∨ ∀ τ, Θ τ i = θ i

/-- The gradients that a sequence gives back: along every path, what reaches the hidden states is what goes to
the inputs, to the hidden state at the start and to the weights. -/
def IsSequenceGradient (M : Meaning Port (Matrix ℝ) W) (IsUpdate : W → Bool) (θ : W → Matrix ℝ) (h : Matrix ℝ)
    (us gs gins : List (Matrix ℝ)) (ghidden : Option (Matrix ℝ)) (δ : (W → Nat → Nat → ℝ) → ℝ) : Prop :=
  ∀ Θ p H dh Us dus Hs, SequencePath M IsUpdate θ h us Θ p H dh Us dus Hs →
    ∃ dHs, List.Forall₂ Matrix.HasVelocity Hs dHs ∧ paired gs dHs = paired gins dus + entryOn ghidden dh + δ p

theorem gradOn_gruInput (grad : VarTypeDict Port (Matrix ℝ)) (dh du : Nat → Nat → ℝ) :
    gradOn grad (Function.update (single .LayerIo du) .RnnLayerHiddenBefore dh) =
      entryOn (grad .LayerIo) du + entryOn (grad .RnnLayerHiddenBefore) dh := by
  have hstill : pairAt Moving.pair (grad .RnnLayerHiddenBefore) (single .LayerIo du .RnnLayerHiddenBefore) = 0 :=
    pairAt_still (grad .RnnLayerHiddenBefore)
  have hsingle : pairing Moving.pair grad (single .LayerIo du) = entryOn (grad .LayerIo) du := gradOn_single grad .LayerIo du
  unfold gradOn
  rw [pairing_update_right grad _ _ dh hstill, hsingle, add_comm]
  rfl

theorem withCarried_on {grad g : Matrix ℝ} {hiddens : Option (Matrix ℝ)} (h : withCarried grad hiddens = some g)
    (d : Nat → Nat → ℝ) : Matrix.inner g d = Matrix.inner grad d + entryOn hiddens d := by
  cases hiddens with
  | none =>
    obtain rfl := Option.some.inj h
    exact (add_zero _).symm
  | some r => exact Moving.pair_plus d h

theorem recordVelocity_gruInput {H U : ℝ → Matrix ℝ} {dh du : Nat → Nat → ℝ} (hH : Matrix.HasVelocity H dh)
    (hU : Matrix.HasVelocity U du) : RecordVelocity (fun τ => gruInput (some (H τ)) (U τ))
      (Function.update (single .LayerIo du) .RnnLayerHiddenBefore dh) := by
  intro port
  by_cases hport : port = .RnnLayerHiddenBefore
  · subst hport
    refine .inl ⟨H, fun τ => ?_, ?_⟩
    · simp [gruInput, VarTypeDict.Set]
    · rw [Function.update_self]
      exact hH
  · have hother := recordVelocity_output hU port
    rw [Function.update_of_ne hport]
    simpa only [gruInput, VarTypeDict.Set, Function.update_of_ne hport] using hother

variable {M : Meaning Port (Matrix ℝ) W} {upd : W → Bool} {θ : W → Matrix ℝ}

/-- A step before a sequence: the gradient of the hidden state that the sequence gives back is added to that
of the step. -/
theorem IsSequenceGradient.cons {h u h' grad g input hiddens : Matrix ℝ} {us gs gins : List (Matrix ℝ)}
    {rest : Option (Matrix ℝ)} {res : VarTypeDict Port (Matrix ℝ)} {δ δ' : (W → Nat → Nat → ℝ) → ℝ}
    {y : VarTypeDict Port (Matrix ℝ)} (heval : M.Eval θ (gruInput (some h) u) y) (hy : y .LayerIo = some h')
    (hg : withCarried grad rest = some g) (hhiddens : res .RnnLayerHiddenBefore = some hiddens)
    (hinput : res .LayerIo = some input)
    (hstep : IsGradient M true upd θ (gruInput (some h) u) (output g) res δ)
    (hrest : IsSequenceGradient M upd θ h' us gs gins rest δ') :
    IsSequenceGradient M upd θ h (u :: us) (grad :: gs) (input :: gins) (some hiddens) fun p => δ' p + δ p := by
  intro Θ p H dh Us dus Hs path
  obtain ⟨U, Us, rfl⟩ : ∃ U Us', Us = U :: Us' := by
    cases Us with
    | nil => cases path.inputs_start
    | cons U Us => exact ⟨U, Us, rfl⟩
  obtain ⟨hU0, hUs0⟩ : U 0 = u ∧ _ := List.cons.inj path.inputs_start
  obtain ⟨K, Hs, rfl⟩ : ∃ K Hs', Hs = K :: Hs' := by
    cases Hs with
    | nil => cases path.eval 0
    | cons K Hs => exact ⟨K, Hs, rfl⟩
  obtain ⟨du, dus, hU, hUs, rfl⟩ := List.forall₂_cons_left_iff.mp path.inputs
  have hcurves : ∀ τ, ∃ Y, M.Eval (Θ τ) (gruInput (some (H τ)) (U τ)) Y ∧ Y .LayerIo = some (K τ) ∧
      Unrolled M (Θ τ) (K τ) (Us.map fun U => U τ) (Hs.map fun H => H τ) := by
    intro τ
    cases path.eval τ with
    | cons heval hK hlater => exact ⟨_, heval, hK, hlater⟩
  choose Y hY hK hlater using hcurves
  have hstart : gruInput (some (H 0)) (U 0) = gruInput (some h) u := by rw [path.hidden_start, hU0]
  obtain ⟨dY, hmoves, hgrad⟩ := hstep Θ p (fun τ => gruInput (some (H τ)) (U τ)) _ Y
    ⟨path.weights_start, hstart, hY, path.weights, recordVelocity_gruInput path.hidden hU, path.still_weights, .inl rfl⟩
  have hKmoves : Matrix.HasVelocity K (dY .LayerIo) := hasVelocity_of_entry (hmoves .LayerIo) hK
  have hK0 : K 0 = h' := by
    have hY0 := hY 0
    rw [hstart, path.weights_start] at hY0
    have hsame := hK 0
    rw [M.unique hY0 heval, hy] at hsame
    exact (Option.some.inj hsame).symm
  obtain ⟨dHs, hHs, hsum⟩ := hrest Θ p K (dY .LayerIo) Us dus Hs
    ⟨path.weights_start, hK0, hUs0, hlater, path.weights, hKmoves, hUs, path.still_weights⟩
  refine ⟨dY .LayerIo :: dHs, .cons hKmoves hHs, ?_⟩
  rw [gradOn_output, withCarried_on hg, gradOn_gruInput, hhiddens, hinput] at hgrad
  rw [paired_cons, paired_cons, hsum]
  have hentry : ∀ (a : Matrix ℝ) d, entryOn (some a) d = Matrix.inner a d := fun _ _ => rfl
  rw [hentry] at hgrad
  linarith

variable {S : Type} {step : LayerOps Port (Matrix ℝ) W S}
  {Holds : S → (W → Matrix ℝ) → List (VarTypeDict Port (Matrix ℝ)) → ((W → Nat → Nat → ℝ) → ℝ) → Prop}

theorem isSequenceGradient_nil (h : Matrix ℝ) : IsSequenceGradient M upd θ h [] [] [] none fun _ => 0 := by
  intro Θ p H dh Us dus Hs path
  obtain rfl := List.map_eq_nil_iff.mp path.inputs_start
  obtain rfl := List.forall₂_nil_left_iff.mp path.inputs
  have hnil : Hs = [] := by
    cases Hs with
    | nil => rfl
    | cons K Hs => cases path.eval 0
  subst hnil
  exact ⟨[], .nil, by simp [paired, entryOn, pairAt]⟩

/-- Forward over a sequence and back over it: the hidden states are those that the steps give one after the
other, and what comes back are the gradients of the sequence. -/
theorem bptt_spec (hlaw : Lawful step M true upd Holds) {us : List (Matrix ℝ)} {hidden : Option (Matrix ℝ)} {h : Matrix ℝ}
    {gs : List (Matrix ℝ)} {ys grads : List (VarTypeDict Port (Matrix ℝ))} {obj obj₁ obj₂ : RecurrentObj S (Matrix ℝ)}
    {xs : List (VarTypeDict Port (Matrix ℝ))} {w : (W → Nat → Nat → ℝ) → ℝ} (hstart : hidden.or obj.m_hiddens = some h)
    (hnil : us = [] → obj.m_inForward = true) (hholds : Holds obj.m_step θ xs w)
    (hforward : FeedForwardAll (RecurrentLayer step) (inputsFrom hidden us) obj = .ok (ys, obj₁))
    (hlen : gs.length = us.length)
    (hback : FeedBackwardAll (RecurrentLayer step) (gs.map output) obj₁ = .ok (grads, obj₂)) :
    ∃ hs gins δ, Unrolled M θ h us hs ∧ ys.map (· .LayerIo) = hs.map some ∧ grads = gins.map output ∧
      gins.length = us.length ∧ (us = [] ∨ obj₂.m_inForward = false) ∧ Holds obj₂.m_step θ xs (fun p => w p + δ p) ∧
      IsSequenceGradient M upd θ h us gs gins (carried obj₂) δ := by
  induction us generalizing hidden h gs ys grads obj obj₁ obj₂ xs w with
  | nil =>
    obtain rfl := List.eq_nil_of_length_eq_zero hlen
    obtain ⟨rfl, rfl⟩ := Prod.mk.inj (Except.ok.inj hforward)
    obtain ⟨rfl, rfl⟩ := Prod.mk.inj (Except.ok.inj hback)
    refine ⟨[], [], fun _ => 0, .nil h, rfl, rfl, rfl, .inl rfl, by simpa using hholds, ?_⟩
    have hcarried : carried obj = none := by simp [carried, hnil rfl]
    rw [hcarried]
    exact isSequenceGradient_nil h
  | cons u us ih =>
    obtain ⟨grad, gs, rfl⟩ : ∃ grad gs', gs = grad :: gs' := by
      cases gs with
      | nil => cases hlen
      | cons grad gs => exact ⟨grad, gs, rfl⟩
    obtain ⟨⟨y, obj'⟩, hfirst, hforward⟩ := except_bind_eq_ok.mp hforward
    obtain ⟨⟨ys, obj₁⟩, hlater, hforward⟩ := except_bind_eq_ok.mp hforward
    obtain ⟨rfl, rfl⟩ := Prod.mk.inj (Except.ok.inj hforward)
    obtain ⟨⟨gins, obj''⟩, hrest, hback⟩ := except_bind_eq_ok.mp hback
    obtain ⟨⟨gin, obj₂⟩, hlast, hback⟩ := except_bind_eq_ok.mp hback
    obtain ⟨rfl, rfl⟩ := Prod.mk.inj (Except.ok.inj hback)
    obtain ⟨h₀, m_step, h', hkept, hstep, hy, rfl⟩ := RecurrentLayer_forward hfirst
    obtain rfl := Option.some.inj (hstart.symm.trans hkept)
    obtain ⟨heval, hholds'⟩ := hlaw.forward hholds hstep
    obtain ⟨hs, gins, δ', hunrolled, hys, rfl, hgins, -, hholds'', hgrad⟩ :=
      @ih none h' gs ys _ ⟨m_step, some h', true⟩ _ _ _ _ rfl (fun _ => rfl) hholds' hlater (Nat.succ.inj hlen) hrest
    obtain ⟨g, res, m_step₂, hiddens, input, hg, hstepBack, hhiddens, hinput, rfl, rfl⟩ := RecurrentLayer_backward hlast
    obtain ⟨δ, hholds₂, hisgrad⟩ := hlaw.backward hholds'' hstepBack
    refine ⟨h' :: hs, input :: gins, fun p => δ' p + δ p, .cons heval hy hunrolled, ?_, rfl, ?_, .inr rfl, ?_, ?_⟩
    · rw [List.map_cons, List.map_cons, hy, hys]
    · rw [List.length_cons, List.length_cons, hgins]
    · simpa only [add_assoc] using hholds₂
    · exact IsSequenceGradient.cons heval hy hg hhiddens hinput hisgrad hgrad

end

end Perception.MetaNN
