import Perception.MetaNN.Composed
import Perception.MetaNN.Recurrent

/-!
# The step of the gated recurrent unit

The composed layer, and the equations that it comes to.
-/
namespace Perception.MetaNN

set_option autoImplicit false
set_option maxRecDepth 4000

open Perception.Lib.Precedence

inductive GruSublayer where
  | Wz | Uz | Add_z | Act_z
  | Wr | Ur | Add_r | Act_r
  | W | U | Elem | Add | Act_Hat
  | Interpolate
  deriving DecidableEq

open GruSublayer in
def gruParameters : List (ComposeKernelInfo GruSublayer Port LayerTemplate) :=
  [.subLayer ⟨Wz, .WeightLayer⟩,
   .subLayer ⟨Uz, .WeightLayer⟩,
   .subLayer ⟨Add_z, .AddLayer⟩,
   .subLayer ⟨Act_z, .SigmoidLayer⟩,
   .inConnect ⟨.LayerIo, Wz, .LayerIo⟩,
   .inConnect ⟨.RnnLayerHiddenBefore, Uz, .LayerIo⟩,
   .internalConnect ⟨Wz, .LayerIo, Add_z, .AddLayerIn1⟩,
   .internalConnect ⟨Uz, .LayerIo, Add_z, .AddLayerIn2⟩,
   .internalConnect ⟨Add_z, .LayerIo, Act_z, .LayerIo⟩,
   .subLayer ⟨Wr, .WeightLayer⟩,
   .subLayer ⟨Ur, .WeightLayer⟩,
   .subLayer ⟨Add_r, .AddLayer⟩,
   .subLayer ⟨Act_r, .SigmoidLayer⟩,
   .inConnect ⟨.LayerIo, Wr, .LayerIo⟩,
   .inConnect ⟨.RnnLayerHiddenBefore, Ur, .LayerIo⟩,
   .internalConnect ⟨Wr, .LayerIo, Add_r, .AddLayerIn1⟩,
   .internalConnect ⟨Ur, .LayerIo, Add_r, .AddLayerIn2⟩,
   .internalConnect ⟨Add_r, .LayerIo, Act_r, .LayerIo⟩,
   .subLayer ⟨Elem, .ElementMulLayer⟩,
   .inConnect ⟨.RnnLayerHiddenBefore, Elem, .ElementMulLayerIn1⟩,
   .internalConnect ⟨Act_r, .LayerIo, Elem, .ElementMulLayerIn2⟩,
   .subLayer ⟨U, .WeightLayer⟩,
   .internalConnect ⟨Elem, .LayerIo, U, .LayerIo⟩,
   .subLayer ⟨W, .WeightLayer⟩,
   .inConnect ⟨.LayerIo, W, .LayerIo⟩,
   .subLayer ⟨Add, .AddLayer⟩,
   .internalConnect ⟨U, .LayerIo, Add, .AddLayerIn1⟩,
   .internalConnect ⟨W, .LayerIo, Add, .AddLayerIn2⟩,
   .subLayer ⟨Act_Hat, .TanhLayer⟩,
   .internalConnect ⟨Add, .LayerIo, Act_Hat, .LayerIo⟩,
   .subLayer ⟨Interpolate, .InterpolateLayer⟩,
   .internalConnect ⟨Act_Hat, .LayerIo, Interpolate, .InterpolateLayerWeight1⟩,
   .inConnect ⟨.RnnLayerHiddenBefore, Interpolate, .InterpolateLayerWeight2⟩,
   .internalConnect ⟨Act_z, .LayerIo, Interpolate, .InterpolateLayerLambda⟩,
   .outConnect ⟨Interpolate, .LayerIo, .LayerIo⟩]

open GruSublayer in
def GruStep : ComposeTopology GruSublayer Port LayerTemplate where
  toSeparateRes := SeparateParameters_ ⟨[], [], [], []⟩ gruParameters
  asserts := ⟨by decide, by decide, by decide, by decide, by decide, by decide, by decide, by decide, by decide, by decide,
    by decide, by decide⟩
  TopologicalOrdering :=
    [⟨Wz, .WeightLayer⟩, ⟨Uz, .WeightLayer⟩, ⟨Wr, .WeightLayer⟩, ⟨Ur, .WeightLayer⟩, ⟨W, .WeightLayer⟩,
     ⟨Add_z, .AddLayer⟩, ⟨Add_r, .AddLayer⟩, ⟨Act_z, .SigmoidLayer⟩, ⟨Act_r, .SigmoidLayer⟩, ⟨Elem, .ElementMulLayer⟩,
     ⟨U, .WeightLayer⟩, ⟨Add, .AddLayer⟩, ⟨Act_Hat, .TanhLayer⟩, ⟨Interpolate, .InterpolateLayer⟩]
  ordering := by
    rw [TopologicalOrdering_eq_bounded]
    decide +kernel

theorem noPortTwice_GruStep : NoPortTwice GruStep := by
  unfold NoPortTwice
  decide +kernel

/-- The gated recurrent unit: the update gate `z`, the reset gate `r`, what the reset hidden state and the
input propose, and the mean of that and the hidden state under `z`. None where shapes do not match. -/
def gruStep {E : Type} [Zero E] [One E] [Add E] [Sub E] [Mul E] [Neg E] [Div E] [Elementary E]
    (Wz Uz Wr Ur W U u h : Matrix E) : Option (Matrix E) := do
  let sz ← Plus.plus (← u.Dot Wz) (← h.Dot Uz)
  let sr ← Plus.plus (← u.Dot Wr) (← h.Dot Ur)
  let z := sz.map Sigmoid
  let r := sr.map Sigmoid
  let s ← Plus.plus (← (← h.ElementMul r).Dot U) (← u.Dot W)
  (s.map Elementary.tanh).Interpolate h z

open GruSublayer in
/-- The equations with the weights of a `GruStep`. -/
def gruStepOf {E : Type} [Zero E] [One E] [Add E] [Sub E] [Mul E] [Neg E] [Div E] [Elementary E]
    (θ : NetworkWeights GruStep → Matrix E) (u h : Matrix E) : Option (Matrix E) :=
  gruStep (θ ⟨Wz, ()⟩) (θ ⟨Uz, ()⟩) (θ ⟨Wr, ()⟩) (θ ⟨Ur, ()⟩) (θ ⟨W, ()⟩) (θ ⟨U, ()⟩) u h

theorem gruStep_eq_some {E : Type} [Zero E] [One E] [Add E] [Sub E] [Mul E] [Neg E] [Div E] [Elementary E]
    {Wz Uz Wr Ur W U u h v : Matrix E} : gruStep Wz Uz Wr Ur W U u h = some v ↔
      ∃ wz uz sz wr ur sr e ue w s, u.Dot Wz = some wz ∧ h.Dot Uz = some uz ∧ Plus.plus wz uz = some sz ∧
        u.Dot Wr = some wr ∧ h.Dot Ur = some ur ∧ Plus.plus wr ur = some sr ∧ h.ElementMul (sr.map Sigmoid) = some e ∧
        e.Dot U = some ue ∧ u.Dot W = some w ∧ Plus.plus ue w = some s ∧
        (s.map Elementary.tanh).Interpolate h (sz.map Sigmoid) = some v := by
  unfold gruStep
  simp only [Option.bind_eq_bind, Option.bind_eq_some_iff]
  constructor
  · rintro ⟨wz, hwz, uz, huz, sz, hsz, wr, hwr, ur, hur, sr, hsr, e, he, ue, hue, w, hw, s, hs, hv⟩
    exact ⟨wz, uz, sz, wr, ur, sr, e, ue, w, s, hwz, huz, hsz, hwr, hur, hsr, he, hue, hw, hs, hv⟩
  · rintro ⟨wz, uz, sz, wr, ur, sr, e, ue, w, s, hwz, huz, hsz, hwr, hur, hsr, he, hue, hw, hs, hv⟩
    exact ⟨wz, hwz, uz, huz, sz, hsz, wr, hwr, ur, hur, sr, hsr, e, he, ue, hue, w, hw, s, hs, hv⟩

/-- What the sublayers give. -/
noncomputable def gruResults (wz uz sz wr ur sr e ue w s v : Matrix ℝ) : GruSublayer → VarTypeDict Port (Matrix ℝ)
  | .Wz => output wz
  | .Uz => output uz
  | .Add_z => output sz
  | .Act_z => output (sz.map Sigmoid)
  | .Wr => output wr
  | .Ur => output ur
  | .Add_r => output sr
  | .Act_r => output (sr.map Sigmoid)
  | .W => output w
  | .U => output ue
  | .Elem => output e
  | .Add => output s
  | .Act_Hat => output (s.map Real.tanh)
  | .Interpolate => output v

/-- What a layer gives is what it gave. -/
theorem eq_of_output {E : Type} {res : VarTypeDict Port (Matrix E)} {v a : Matrix E} (hres : res = output v)
    (ha : res .LayerIo = some a) : v = a := by
  rw [hres] at ha
  exact Option.some.inj ha

open GruSublayer in
/-- A `GruStep` computes the equations of the gated recurrent unit. -/
theorem eval_GruStep (θ : NetworkWeights GruStep → Matrix ℝ) (x y : VarTypeDict Port (Matrix ℝ)) :
    (networkMeaning GruStep).Eval θ x y ↔ ∃ u h v, x .LayerIo = some u ∧ x .RnnLayerHiddenBefore = some h ∧
      gruStepOf θ u h = some v ∧ y = output v := by
  constructor
  · rintro ⟨res, hsolves, rfl⟩
    obtain ⟨u, wz, hu, hwz, hWz⟩ := hsolves Wz (by decide)
    obtain ⟨h, uz, hh, huz, hUz⟩ := hsolves Uz (by decide)
    obtain ⟨a, b, sz, ha, hb, hsz, hAdd_z⟩ := hsolves Add_z (by decide)
    obtain rfl := eq_of_output hWz ha
    obtain rfl := eq_of_output hUz hb
    obtain ⟨a, ha, hAct_z⟩ := hsolves Act_z (by decide)
    obtain rfl := eq_of_output hAdd_z ha
    obtain ⟨u', wr, hu', hwr, hWr⟩ := hsolves Wr (by decide)
    obtain rfl := Option.some.inj (hu.symm.trans hu')
    obtain ⟨h', ur, hh', hur, hUr⟩ := hsolves Ur (by decide)
    obtain rfl := Option.some.inj (hh.symm.trans hh')
    obtain ⟨a, b, sr, ha, hb, hsr, hAdd_r⟩ := hsolves Add_r (by decide)
    obtain rfl := eq_of_output hWr ha
    obtain rfl := eq_of_output hUr hb
    obtain ⟨a, ha, hAct_r⟩ := hsolves Act_r (by decide)
    obtain rfl := eq_of_output hAdd_r ha
    obtain ⟨h', b, e, hh', hb, he, hElem⟩ := hsolves Elem (by decide)
    obtain rfl := Option.some.inj (hh.symm.trans hh')
    obtain rfl := eq_of_output hAct_r hb
    obtain ⟨a, ue, ha, hue, hU⟩ := hsolves U (by decide)
    obtain rfl := eq_of_output hElem ha
    obtain ⟨u', w, hu', hw, hW⟩ := hsolves W (by decide)
    obtain rfl := Option.some.inj (hu.symm.trans hu')
    obtain ⟨a, b, s, ha, hb, hs, hAdd⟩ := hsolves Add (by decide)
    obtain rfl := eq_of_output hU ha
    obtain rfl := eq_of_output hW hb
    obtain ⟨a, ha, hAct_Hat⟩ := hsolves Act_Hat (by decide)
    obtain rfl := eq_of_output hAdd ha
    obtain ⟨a, h', l, v, ha, hh', hl, hv, hInterpolate⟩ := hsolves Interpolate (by decide)
    obtain rfl := eq_of_output hAct_Hat ha
    obtain rfl := Option.some.inj (hh.symm.trans hh')
    obtain rfl := eq_of_output hAct_z hl
    refine ⟨u, h, v, hu, hh, gruStep_eq_some.mpr ?_, ?_⟩
    · exact ⟨_, _, _, _, _, _, _, _, _, _, hwz, huz, hsz, hwr, hur, hsr, he, hue, hw, hs, hv⟩
    · have hout : portOut GruStep res .LayerIo = output v .LayerIo := congrFun hInterpolate .LayerIo
      funext port
      cases port
      · exact hout
      all_goals rfl
  · rintro ⟨u, h, v, hu, hh, hv, rfl⟩
    obtain ⟨wz, uz, sz, wr, ur, sr, e, ue, w, s, hwz, huz, hsz, hwr, hur, hsr, he, hue, hw, hs, hv⟩ :=
      gruStep_eq_some.mp hv
    refine ⟨gruResults wz uz sz wr ur sr e ue w s v, fun t _ => ?_, ?_⟩
    · cases t with
      | Wz => exact ⟨u, wz, hu, hwz, rfl⟩
      | Uz => exact ⟨h, uz, hh, huz, rfl⟩
      | Add_z => exact ⟨wz, uz, sz, rfl, rfl, hsz, rfl⟩
      | Act_z => exact ⟨sz, rfl, rfl⟩
      | Wr => exact ⟨u, wr, hu, hwr, rfl⟩
      | Ur => exact ⟨h, ur, hh, hur, rfl⟩
      | Add_r => exact ⟨wr, ur, sr, rfl, rfl, hsr, rfl⟩
      | Act_r => exact ⟨sr, rfl, rfl⟩
      | W => exact ⟨u, w, hu, hw, rfl⟩
      | U => exact ⟨e, ue, rfl, hue, rfl⟩
      | Elem => exact ⟨h, sr.map Sigmoid, e, hh, rfl, he, rfl⟩
      | Add => exact ⟨ue, w, s, rfl, rfl, hs, rfl⟩
      | Act_Hat => exact ⟨s, rfl, rfl⟩
      | Interpolate => exact ⟨s.map Real.tanh, h, sz.map Sigmoid, v, rfl, hh, rfl, hv, rfl⟩
    · funext port
      cases port <;> rfl

/-- A function of an input and a hidden state over a sequence. -/
def unroll {V : Type} (f : V → V → Option V) : V → List V → Option (List V)
  | _, [] => some []
  | h, u :: us => do
    let h' ← f u h
    let hs ← unroll f h' us
    some (h' :: hs)

theorem unrolled_GruStep {θ : NetworkWeights GruStep → Matrix ℝ} {h : Matrix ℝ} {us hs : List (Matrix ℝ)}
    (hunrolled : Unrolled (networkMeaning GruStep) θ h us hs) : unroll (gruStepOf θ) h us = some hs := by
  induction hunrolled with
  | nil h => rfl
  | cons heval hy _ ih =>
    obtain ⟨u, h, v, hu, hh, hstep, rfl⟩ := (eval_GruStep _ _ _).mp heval
    obtain rfl := Option.some.inj hu
    obtain rfl := Option.some.inj hh
    obtain rfl := Option.some.inj hy
    rw [unroll, hstep, Option.bind_eq_bind, Option.bind_some, ih]
    rfl

theorem unrolled_of_unroll {θ : NetworkWeights GruStep → Matrix ℝ} {h : Matrix ℝ} {us hs : List (Matrix ℝ)}
    (hunroll : unroll (gruStepOf θ) h us = some hs) : Unrolled (networkMeaning GruStep) θ h us hs := by
  induction us generalizing h hs with
  | nil =>
    obtain rfl := Option.some.inj hunroll
    exact .nil h
  | cons u us ih =>
    simp only [unroll, Option.bind_eq_bind, Option.bind_eq_some_iff] at hunroll
    obtain ⟨h', hstep, hs, hlater, hunroll⟩ := hunroll
    obtain rfl := Option.some.inj hunroll
    exact .cons ((eval_GruStep _ _ _).mpr ⟨u, h, h', rfl, rfl, hstep, rfl⟩) rfl (ih hlater)

/-- Weights, a hidden state and inputs of the unit that move. -/
structure GruPath (IsUpdate : NetworkWeights GruStep → Bool) (θ : NetworkWeights GruStep → Matrix ℝ) (h : Matrix ℝ)
    (us : List (Matrix ℝ)) (Θ : ℝ → NetworkWeights GruStep → Matrix ℝ) (p : NetworkWeights GruStep → Nat → Nat → ℝ)
    (H : ℝ → Matrix ℝ) (dh : Nat → Nat → ℝ) (Us : List (ℝ → Matrix ℝ)) (dus : List (Nat → Nat → ℝ))
    (Hs : List (ℝ → Matrix ℝ)) : Prop where
  weights_start : Θ 0 = θ
  hidden_start : H 0 = h
  inputs_start : Us.map (fun U => U 0) = us
  eval : ∀ τ, unroll (gruStepOf (Θ τ)) (H τ) (Us.map fun U => U τ) = some (Hs.map fun H => H τ)
  weights : ∀ i, Matrix.HasVelocity (fun τ => Θ τ i) (p i)
  hidden : Matrix.HasVelocity H dh
  inputs : List.Forall₂ Matrix.HasVelocity Us dus
  still_weights : ∀ i, IsUpdate i = true ∨ ∀ τ, Θ τ i = θ i

/-- A recurrent layer over a sequence and back, from its creation: it gives the hidden states of the equations,
and the gradients of their unrolling to the inputs, to the hidden state at the start, which it keeps, and to
the weights, which it collects. -/
theorem RecurrentLayer_gru (SubPolicyPicker : GruSublayer → FeedbackPolicy)
    (step : LayerOps Port (Matrix ℝ) (NetworkWeights GruStep) (NetworkObj GruStep ℝ))
    (hstep : network GruStep true SubPolicyPicker = some step) (θ : NetworkWeights GruStep → Matrix ℝ) (h : Matrix ℝ)
    (us gs : List (Matrix ℝ)) (hlen : gs.length = us.length) (ys grads : List (VarTypeDict Port (Matrix ℝ)))
    (obj₁ obj₂ : RecurrentObj (NetworkObj GruStep ℝ) (Matrix ℝ))
    (hforward : FeedForwardAll (RecurrentLayer step) (inputsFrom (some h) us) ⟨networkCreate GruStep θ, none, true⟩ =
      .ok (ys, obj₁))
    (hback : FeedBackwardAll (RecurrentLayer step) (gs.map output) obj₁ = .ok (grads, obj₂)) :
    ∃ hs gins, unroll (gruStepOf θ) h us = some hs ∧ ys.map (· .LayerIo) = hs.map some ∧ grads = gins.map output ∧
      gins.length = us.length ∧
      (∀ Θ p H dh Us dus Hs, GruPath (networkUpdates GruStep SubPolicyPicker) θ h us Θ p H dh Us dus Hs →
        ∃ dHs, List.Forall₂ Matrix.HasVelocity Hs dHs ∧
          paired gs dHs = paired gins dus + entryOn obj₂.m_hiddens dh +
            (((RecurrentLayer step).GradCollect obj₂).1.map fun g => Matrix.inner g.2 (p g.1)).sum) ∧
      (RecurrentLayer step).NeutralInvariant ((RecurrentLayer step).GradCollect obj₂).2 = .ok () := by
  obtain ⟨res, hlaw⟩ := network_lawful noPortTwice_GruStep hstep
  obtain ⟨hs, gins, δ, hunrolled, hys, hgrads, hgins, hphase, hholds, hgrad⟩ :=
    bptt_spec hlaw rfl (fun _ => rfl) (networkHolds_create res θ) hforward hlen hback
  obtain ⟨hempty, hcollect⟩ := hlaw.collect hholds
  refine ⟨hs, gins, unrolled_GruStep hunrolled, hys, hgrads, hgins, ?_, hlaw.neutral hholds⟩
  intro Θ p H dh Us dus Hs path
  obtain ⟨dHs, hmoves, hsum⟩ := hgrad Θ p H dh Us dus Hs ⟨path.weights_start, path.hidden_start, path.inputs_start,
    fun τ => unrolled_of_unroll (path.eval τ), path.weights, path.hidden, path.inputs, path.still_weights⟩
  have hkept : carried obj₂ = obj₂.m_hiddens := by
    rcases hphase with rfl | hphase
    · -- without inputs the layer is as it was created
      obtain rfl := List.eq_nil_of_length_eq_zero hlen
      obtain ⟨-, rfl⟩ := Prod.mk.inj (Except.ok.inj hforward)
      obtain ⟨-, rfl⟩ := Prod.mk.inj (Except.ok.inj hback)
      rfl
    · simp [carried, hphase]
  have hδ := hcollect p
  rw [zero_add] at hδ
  refine ⟨dHs, hmoves, ?_⟩
  rw [hsum, hkept, hδ]
  rfl

/-- Two steps of a unit with one hidden value. -/
theorem RecurrentLayer_gru_two :
    ∃ step : LayerOps Port (Matrix ℝ) (NetworkWeights GruStep) (NetworkObj GruStep ℝ),
      network GruStep true (fun _ => alwaysUpdate) = some step ∧ ∃ ys grads obj₁ obj₂,
        FeedForwardAll (RecurrentLayer step) (inputsFrom (some (cell 2)) [cell 3, cell 4])
          ⟨networkCreate GruStep fun _ => cell 1, none, true⟩ = .ok (ys, obj₁) ∧
        FeedBackwardAll (RecurrentLayer step) ([cell 5, cell 6].map output) obj₁ = .ok (grads, obj₂) ∧
        ∃ hs gins : List (Matrix ℝ), unroll (gruStepOf fun _ => cell 1) (cell 2) [cell 3, cell 4] = some hs ∧
          ys.map (· .LayerIo) = hs.map some ∧ grads = gins.map output ∧ gins.length = 2 := by
  have hruns : ∃ step : LayerOps Port (Matrix ℝ) (NetworkWeights GruStep) (NetworkObj GruStep ℝ),
      network GruStep true (fun _ => alwaysUpdate) = some step ∧ ∃ ys grads obj₁ obj₂,
        FeedForwardAll (RecurrentLayer step) (inputsFrom (some (cell 2)) [cell 3, cell 4])
          ⟨networkCreate GruStep fun _ => cell 1, none, true⟩ = .ok (ys, obj₁) ∧
        FeedBackwardAll (RecurrentLayer step) ([cell 5, cell 6].map output) obj₁ = .ok (grads, obj₂) :=
    ⟨_, rfl, _, _, _, _, rfl, rfl⟩
  obtain ⟨step, hstep, ys, grads, obj₁, obj₂, hforward, hback⟩ := hruns
  obtain ⟨hs, gins, hunroll, hys, hgrads, hgins, -⟩ := RecurrentLayer_gru (fun _ => alwaysUpdate) step hstep
    (fun _ => cell 1) (cell 2) [cell 3, cell 4] [cell 5, cell 6] rfl ys grads obj₁ obj₂ hforward hback
  exact ⟨step, hstep, ys, grads, obj₁, obj₂, hforward, hback, hs, gins, hunroll, hys, hgrads, hgins⟩

end Perception.MetaNN
