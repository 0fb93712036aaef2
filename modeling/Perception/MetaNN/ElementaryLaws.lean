import Perception.MetaNN.WeightLaws

/-!
# The elementary layers

The bias layer and the layers without weights give their gradients.
-/
namespace Perception.MetaNN

set_option autoImplicit false

open Perception.Lib.StateExcept Finset

namespace Matrix

variable {f : ℝ → ℝ → ℝ} {a b c : Matrix ℝ} {d e : Nat → Nat → ℝ}

theorem inner_zip_left (hc : zip f a b = some c) (h : ∀ i j, f (a.val i j) (b.val i j) * d i j = a.val i j * e i j) :
    inner c d = inner a e := by
  obtain ⟨-, rfl⟩ := zip_eq_some hc
  exact sum_congr rfl fun i _ => sum_congr rfl fun j _ => h i j

theorem inner_zip_right (hc : zip f a b = some c) (h : ∀ i j, f (a.val i j) (b.val i j) * d i j = b.val i j * e i j) :
    inner c d = inner b e := by
  obtain ⟨⟨hrow, hcol⟩, rfl⟩ := zip_eq_some hc
  unfold inner
  rw [hrow, hcol]
  exact sum_congr rfl fun i _ => sum_congr rfl fun j _ => h i j

end Matrix

def biasMeaning : Meaning Port (Matrix ℝ) Unit where
  Eval θ x y := ∃ v r, x .LayerIo = some v ∧ Plus.plus v (θ ()) = some r ∧ y = output r
  unique := by
    rintro θ x y y' ⟨v, r, hv, hr, rfl⟩ ⟨v', r', hv', hr', rfl⟩
    obtain rfl := Option.some.inj (hv.symm.trans hv')
    rw [Option.some.inj (hr.symm.trans hr')]

/-- No inputs are kept. -/
def HoldsBias (IsUpdate : Bool) (obj : BiasObj ℝ) (θ : Unit → Matrix ℝ) (_ : List (VarTypeDict Port (Matrix ℝ)))
    (w : (Unit → Nat → Nat → ℝ) → ℝ) : Prop :=
  obj.m_bias = θ () ∧ (IsUpdate = false → obj.m_grad = []) ∧
    w = fun p => (obj.m_grad.map fun g => Moving.pair g (p ())).sum

theorem biasUpdateGrad_spec {IsUpdate : Bool} {grad : VarTypeDict Port (Matrix ℝ)} {obj obj' : BiasObj ℝ}
    (h : obj.updateGrad IsUpdate grad = .ok obj') :
    obj'.m_bias = obj.m_bias ∧ (IsUpdate = false → obj' = obj) ∧
      (IsUpdate = true → ∃ tmp, grad .LayerIo = some tmp ∧ obj'.m_grad = tmp :: obj.m_grad) := by
  unfold BiasObj.updateGrad at h
  cases IsUpdate with
  | true =>
    rw [if_pos rfl] at h
    obtain ⟨tmp, htmp, h⟩ := except_bind_eq_ok.mp h
    split at h
    · obtain rfl := Except.ok.inj h
      exact ⟨rfl, fun h => absurd h.symm Bool.false_ne_true, fun _ => ⟨tmp, get_eq_ok.mp htmp, rfl⟩⟩
    · cases h
  | false =>
    rw [if_neg Bool.false_ne_true] at h
    obtain rfl := Except.ok.inj h
    exact ⟨rfl, fun _ => rfl, fun h => absurd h Bool.false_ne_true⟩

theorem isGradient_bias {fbo upd : Bool} {θ : Unit → Matrix ℝ} {x grad : VarTypeDict Port (Matrix ℝ)}
    {δ : (Unit → Nat → Nat → ℝ) → ℝ} (hquiet : upd = false → ∀ p, δ p = 0)
    (hupdate : upd = true → ∃ tmp, grad .LayerIo = some tmp ∧ ∀ p, δ p = Matrix.inner tmp (p ())) :
    IsGradient biasMeaning fbo (fun _ => upd) θ x grad
      (if fbo then VarTypeDict.Create.Set .LayerIo (grad .LayerIo) else VarTypeDict.Create) δ := by
  intro Θ p X dX Y path
  choose v r hv hr hY using path.eval
  have hvel := Matrix.hasVelocity_zip (input_velocity path hv) (weight_velocity path ()) hr
    (d := fun i j => (if fbo then dX .LayerIo else 0) i j + (if upd then p () else 0) i j)
    (fun u w i j _ _ hu hw => hu.add hw)
  refine ⟨_, by rw [funext hY]; exact recordVelocity_output hvel, ?_⟩
  rw [gradOn_single]
  have hsum : ∀ g : Option (Matrix ℝ), entryOn g (fun i j =>
      (if fbo then dX .LayerIo else 0) i j + (if upd then p () else 0) i j) =
        entryOn g (if fbo then dX .LayerIo else 0) + entryOn g (if upd then p () else 0) := by
    rintro (_ | g)
    · exact (add_zero _).symm
    · exact Matrix.inner_add g _ _
  have hstill : ∀ g : Option (Matrix ℝ), entryOn g (0 : Nat → Nat → ℝ) = 0 := by
    rintro (_ | g)
    · rfl
    · exact Moving.pair_still g
  rw [hsum]
  congr 1
  · cases fbo with
    | true =>
      rw [if_pos rfl, if_pos rfl, gradOn_set _ _ rfl, gradOn_create, add_zero]
    | false =>
      rw [if_neg Bool.false_ne_true, if_neg Bool.false_ne_true, gradOn_create]
      exact hstill _
  · cases upd with
    | true =>
      obtain ⟨tmp, htmp, hδ⟩ := hupdate rfl
      rw [hδ, htmp]
      rfl
    | false =>
      rw [hquiet rfl, if_neg Bool.false_ne_true]
      exact hstill _

theorem lawful_BiasLayer (IsFeedbackOutput IsUpdate : Bool) :
    Lawful (BiasLayer IsFeedbackOutput IsUpdate) biasMeaning IsFeedbackOutput (fun _ => IsUpdate)
      (HoldsBias IsUpdate) where
  forward := by
    rintro obj obj' θ xs w x y ⟨hbias, hnone, rfl⟩ hstep
    obtain ⟨val, hval, hstep⟩ := except_bind_eq_ok.mp hstep
    obtain ⟨res, hres, hstep⟩ := except_bind_eq_ok.mp hstep
    obtain ⟨rfl, rfl⟩ := Prod.mk.inj (Except.ok.inj hstep)
    rw [asserted_eq_ok, hbias] at hres
    exact ⟨⟨val, res, get_eq_ok.mp hval, hres, rfl⟩, hbias, hnone, rfl⟩
  backward := by
    rintro obj obj' θ xs w x grad gin ⟨hbias, hnone, rfl⟩ hstep
    obtain ⟨mid, hmid, hstep⟩ := except_bind_eq_ok.mp hstep
    obtain ⟨rfl, rfl⟩ := Prod.mk.inj (Except.ok.inj hstep)
    obtain ⟨hsame, hquiet, hupdate⟩ := biasUpdateGrad_spec hmid
    cases IsUpdate with
    | true =>
      obtain ⟨tmp, htmp, hgrads⟩ := hupdate rfl
      refine ⟨fun p => Matrix.inner tmp (p ()), ⟨hsame.trans hbias, fun h => absurd h.symm Bool.false_ne_true, ?_⟩,
        isGradient_bias (fun h => absurd h.symm Bool.false_ne_true) fun _ => ⟨tmp, htmp, fun _ => rfl⟩⟩
      funext p
      rw [hgrads, List.map_cons, List.sum_cons, add_comm]
      rfl
    | false =>
      obtain rfl := hquiet rfl
      refine ⟨fun _ => 0, ⟨hbias, hnone, ?_⟩, isGradient_bias (fun _ _ => rfl) fun h => absurd h Bool.false_ne_true⟩
      funext p
      exact add_zero _
  noThrow := by
    rintro obj θ xs w x grad what - hstep
    rcases except_bind_eq_error.mp hstep with hstep | ⟨mid, -, hstep⟩
    · unfold BiasObj.updateGrad at hstep
      split at hstep
      · rcases except_bind_eq_error.mp hstep with hstep | ⟨tmp, -, hstep⟩
        · exact get_ne_throw hstep
        · split at hstep <;> cases hstep
      · cases hstep
    · cases hstep
  collect := by
    rintro obj θ xs w ⟨hbias, hnone, rfl⟩
    cases IsUpdate with
    | true =>
      refine ⟨⟨hbias, fun _ => rfl, rfl⟩, fun p => ?_⟩
      show _ = ((obj.m_grad.map fun g => ((), g)).map fun g => Moving.pair g.2 (p g.1)).sum
      rw [List.map_map]
      rfl
    | false =>
      have hnil := hnone rfl
      refine ⟨⟨hbias, hnone, ?_⟩, fun p => ?_⟩
      · funext p
        show (0 : ℝ) = (obj.m_grad.map _).sum
        rw [hnil]
        rfl
      · rw [hnil]
        rfl
  neutral := by
    rintro obj θ w ⟨hbias, hnone, rfl⟩
    cases IsUpdate with
    | true => rfl
    | false => rfl

/-- A layer without weights has no gradients to collect. -/
theorem lawful_weightless {S : Type} {ops : LayerOps Port (Matrix ℝ) Empty S} {M : Meaning Port (Matrix ℝ) Empty} {fbo : Bool}
    {upd : Empty → Bool} (Keeps : S → List (VarTypeDict Port (Matrix ℝ)) → Prop)
    (hforward : ∀ obj obj' θ xs x y, Keeps obj xs → ops.FeedForward x obj = .ok (y, obj') →
      M.Eval θ x y ∧ Keeps obj' (x :: xs))
    (hbackward : ∀ obj obj' θ xs x grad gin, Keeps obj (x :: xs) → ops.FeedBackward grad obj = .ok (gin, obj') →
      Keeps obj' xs ∧ IsGradient M fbo upd θ x grad gin fun _ => 0)
    (hnoThrow : ∀ obj xs x grad what, Keeps obj (x :: xs) → ops.FeedBackward grad obj ≠ .error (.runtime_error what))
    (hcollect : ∀ obj, ops.GradCollect obj = ([], obj))
    (hneutral : ∀ obj, Keeps obj [] → ops.NeutralInvariant obj = .ok ()) :
    Lawful ops M fbo upd fun obj _ xs w => Keeps obj xs ∧ w = fun _ => 0 where
  forward := by
    rintro obj obj' θ xs w x y ⟨hkeeps, rfl⟩ hstep
    obtain ⟨heval, hkeeps⟩ := hforward obj obj' θ xs x y hkeeps hstep
    exact ⟨heval, hkeeps, rfl⟩
  backward := by
    rintro obj obj' θ xs w x grad gin ⟨hkeeps, rfl⟩ hstep
    obtain ⟨hkeeps, hgrad⟩ := hbackward obj obj' θ xs x grad gin hkeeps hstep
    exact ⟨fun _ => 0, ⟨hkeeps, funext fun _ => add_zero 0⟩, hgrad⟩
  noThrow := by
    rintro obj θ xs w x grad what ⟨hkeeps, rfl⟩
    exact hnoThrow obj xs x grad what hkeeps
  collect := by
    rintro obj θ xs w ⟨hkeeps, rfl⟩
    rw [hcollect]
    exact ⟨⟨hkeeps, rfl⟩, fun _ => rfl⟩
  neutral := by
    rintro obj θ w ⟨hkeeps, rfl⟩
    rw [hcollect]
    exact hneutral obj hkeeps

/-- Two inputs under an operator. -/
def binaryMeaning (port1 port2 : Port) (op : Matrix ℝ → Matrix ℝ → Option (Matrix ℝ)) : Meaning Port (Matrix ℝ) Empty where
  Eval _ x y := ∃ a b r, x port1 = some a ∧ x port2 = some b ∧ op a b = some r ∧ y = output r
  unique := by
    rintro _ x y y' ⟨a, b, r, ha, hb, hr, rfl⟩ ⟨a', b', r', ha', hb', hr', rfl⟩
    obtain rfl := Option.some.inj (ha.symm.trans ha')
    obtain rfl := Option.some.inj (hb.symm.trans hb')
    rw [Option.some.inj (hr.symm.trans hr')]

/-- A layer that passes no gradient on has none. -/
theorem isGradient_none {W : Type} {M : Meaning Port (Matrix ℝ) W} {upd : W → Bool} {θ : W → Matrix ℝ}
    {x grad : VarTypeDict Port (Matrix ℝ)} (hupd : ∀ i, upd i = false) :
    IsGradient M false upd θ x grad VarTypeDict.Create fun _ => 0 := by
  intro Θ p X dX Y path
  have hX := fun τ => path.still_inputs.resolve_left Bool.false_ne_true τ
  have hΘ : ∀ τ, Θ τ = θ := by
    intro τ
    funext i
    exact (path.still_weights i).resolve_left (by rw [hupd i]; exact Bool.false_ne_true) τ
  have hY : Y = fun _ => Y 0 := by
    funext τ
    have hτ := path.eval τ
    have h0 := path.eval 0
    rw [hX, hΘ] at hτ h0
    exact M.unique hτ h0
  refine ⟨fun _ => 0, by rw [hY]; exact recordVelocity_still (Y 0), ?_⟩
  have hzero : gradOn grad (fun _ => (0 : Nat → Nat → ℝ)) = 0 := pairing_still grad
  rw [hzero, gradOn_create, add_zero]

theorem lawful_AddLayer (IsFeedbackOutput : Bool) (upd : Empty → Bool) :
    Lawful (AddLayer IsFeedbackOutput) (binaryMeaning .AddLayerIn1 .AddLayerIn2 Plus.plus) IsFeedbackOutput
      upd (fun _ _ _ w => True ∧ w = fun _ => 0) := by
  apply lawful_weightless fun _ _ => True
  · intro obj obj' θ xs x y _ hstep
    obtain ⟨val1, hval1, hstep⟩ := except_bind_eq_ok.mp hstep
    obtain ⟨val2, hval2, hstep⟩ := except_bind_eq_ok.mp hstep
    obtain ⟨res, hres, hstep⟩ := except_bind_eq_ok.mp hstep
    obtain ⟨rfl, rfl⟩ := Prod.mk.inj (Except.ok.inj hstep)
    exact ⟨⟨val1, val2, res, get_eq_ok.mp hval1, get_eq_ok.mp hval2, asserted_eq_ok.mp hres, rfl⟩, trivial⟩
  · intro obj obj' θ xs x grad gin _ hstep
    refine ⟨trivial, ?_⟩
    cases IsFeedbackOutput with
    | false =>
      obtain ⟨rfl, rfl⟩ := Prod.mk.inj (Except.ok.inj hstep)
      exact isGradient_none fun i => nomatch i
    | true =>
      obtain ⟨rfl, rfl⟩ := Prod.mk.inj (Except.ok.inj hstep)
      intro Θ p X dX Y path
      choose a b r ha hb hr hY using path.eval
      have hvel := Matrix.hasVelocity_zip (input_velocity path ha) (input_velocity path hb) hr
        (d := dX .AddLayerIn1 + dX .AddLayerIn2) (fun u w i j _ _ hu hw => hu.add hw)
      refine ⟨_, by rw [funext hY]; exact recordVelocity_output hvel, ?_⟩
      rw [gradOn_single, gradOn_set _ _ rfl, gradOn_set _ _ rfl, gradOn_create, add_zero]
      have hsum : ∀ g : Option (Matrix ℝ), entryOn g (dX .AddLayerIn1 + dX .AddLayerIn2) =
          entryOn g (dX .AddLayerIn1) + entryOn g (dX .AddLayerIn2) := by
        rintro (_ | g)
        · exact (add_zero _).symm
        · exact Matrix.inner_add g _ _
      rw [hsum, add_zero, add_comm]
  · intro obj xs x grad what _ hstep
    cases IsFeedbackOutput <;> cases hstep
  · intro obj
    rfl
  · intro obj _
    rfl

/-- Nothing is thrown where a step forward has left something. -/
theorem popped_ne_throw {α V : Type} {f : α → Option V} {x : α} {xs : List α} {l : List V} {what : String} {e : Fault}
    (h : (x :: xs).map f = l.map some) : popped what l ≠ .error e := by
  cases l with
  | nil => cases h
  | cons top rest => intro hpop; cases hpop

/-- The factors lie on two stacks. -/
def KeepsFactors (IsFeedbackOutput : Bool) (obj : ElementMulObj ℝ) (xs : List (VarTypeDict Port (Matrix ℝ))) : Prop :=
  IsFeedbackOutput = true → xs.map (· .ElementMulLayerIn1) = obj.m_data1.map some ∧
    xs.map (· .ElementMulLayerIn2) = obj.m_data2.map some

theorem isGradient_mul {θ : Empty → Matrix ℝ} {upd : Empty → Bool} {x grad : VarTypeDict Port (Matrix ℝ)}
    {top1 top2 g res1 res2 : Matrix ℝ} (h1 : x .ElementMulLayerIn1 = some top1) (h2 : x .ElementMulLayerIn2 = some top2)
    (hg : grad .LayerIo = some g) (hres1 : g.ElementMul top2 = some res1) (hres2 : g.ElementMul top1 = some res2) :
    IsGradient (binaryMeaning .ElementMulLayerIn1 .ElementMulLayerIn2 Matrix.ElementMul) true upd θ x grad
      ((VarTypeDict.Create.Set .ElementMulLayerIn1 (some res1)).Set .ElementMulLayerIn2 (some res2)) fun _ => 0 := by
  intro Θ p X dX Y path
  choose a b r ha hb hr hY using path.eval
  have ha0 := ha 0
  have hb0 := hb 0
  rw [path.inputs_start] at ha0 hb0
  obtain rfl := Option.some.inj (h1.symm.trans ha0)
  obtain rfl := Option.some.inj (h2.symm.trans hb0)
  have hvel := Matrix.hasVelocity_zip (input_velocity path ha) (input_velocity path hb) hr
    (d := fun i j => dX .ElementMulLayerIn1 i j * (b 0).val i j + (a 0).val i j * dX .ElementMulLayerIn2 i j)
    (by
      intro u w i j hu0 hw0 hu hw
      rw [← hu0, ← hw0]
      exact hu.mul hw)
  refine ⟨_, by rw [funext hY]; exact recordVelocity_output hvel, ?_⟩
  rw [gradOn_single, gradOn_set _ _ rfl, gradOn_set _ _ rfl, gradOn_create, add_zero, add_zero, hg]
  show Matrix.inner g _ = Matrix.inner res2 _ + Matrix.inner res1 _
  rw [Matrix.inner_zip_left (e := fun i j => dX .ElementMulLayerIn1 i j * (b 0).val i j) hres1 (fun i j => by ring),
    Matrix.inner_zip_left (e := fun i j => (a 0).val i j * dX .ElementMulLayerIn2 i j) hres2 (fun i j => by ring),
    ← Matrix.inner_add, add_comm]
  rfl

theorem lawful_ElementMulLayer (IsFeedbackOutput : Bool) (upd : Empty → Bool) :
    Lawful (ElementMulLayer IsFeedbackOutput) (binaryMeaning .ElementMulLayerIn1 .ElementMulLayerIn2 Matrix.ElementMul)
      IsFeedbackOutput upd (fun obj _ xs w => KeepsFactors IsFeedbackOutput obj xs ∧ w = fun _ => 0) := by
  apply lawful_weightless (KeepsFactors IsFeedbackOutput)
  · intro obj obj' θ xs x y hkeeps hstep
    obtain ⟨val1, hval1, hstep⟩ := except_bind_eq_ok.mp hstep
    obtain ⟨val2, hval2, hstep⟩ := except_bind_eq_ok.mp hstep
    obtain ⟨res, hres, hstep⟩ := except_bind_eq_ok.mp hstep
    obtain ⟨rfl, rfl⟩ := Prod.mk.inj (Except.ok.inj hstep)
    rw [get_eq_ok] at hval1 hval2
    refine ⟨⟨val1, val2, res, hval1, hval2, asserted_eq_ok.mp hres, rfl⟩, ?_⟩
    rintro rfl
    obtain ⟨hdata1, hdata2⟩ := hkeeps rfl
    rw [List.map_cons, List.map_cons, hval1, hval2, hdata1, hdata2]
    exact ⟨rfl, rfl⟩
  · intro obj obj' θ xs x grad gin hkeeps hstep
    cases IsFeedbackOutput with
    | false =>
      obtain ⟨rfl, rfl⟩ := Prod.mk.inj (Except.ok.inj hstep)
      exact ⟨fun h => absurd h Bool.false_ne_true, isGradient_none fun i => nomatch i⟩
    | true =>
      obtain ⟨hdata1, hdata2⟩ := hkeeps rfl
      obtain ⟨⟨top1, rest1⟩, htop1, hstep⟩ := except_bind_eq_ok.mp hstep
      obtain ⟨⟨top2, rest2⟩, htop2, hstep⟩ := except_bind_eq_ok.mp hstep
      obtain ⟨g, hg, hstep⟩ := except_bind_eq_ok.mp hstep
      obtain ⟨res1, hres1, hstep⟩ := except_bind_eq_ok.mp hstep
      obtain ⟨res2, hres2, hstep⟩ := except_bind_eq_ok.mp hstep
      obtain ⟨rfl, rfl⟩ := Prod.mk.inj (Except.ok.inj hstep)
      rw [popped_eq_ok.mp htop1] at hdata1
      rw [popped_eq_ok.mp htop2] at hdata2
      obtain ⟨h1, hrest1⟩ := List.cons.inj hdata1
      obtain ⟨h2, hrest2⟩ := List.cons.inj hdata2
      exact ⟨fun _ => ⟨hrest1, hrest2⟩,
        isGradient_mul h1 h2 (get_eq_ok.mp hg) (asserted_eq_ok.mp hres1) (asserted_eq_ok.mp hres2)⟩
  · intro obj xs x grad what hkeeps hstep
    cases IsFeedbackOutput with
    | false => cases hstep
    | true =>
      obtain ⟨hdata1, hdata2⟩ := hkeeps rfl
      rcases except_bind_eq_error.mp hstep with hstep | ⟨top1, -, hstep⟩
      · exact popped_ne_throw hdata1 hstep
      rcases except_bind_eq_error.mp hstep with hstep | ⟨top2, -, hstep⟩
      · exact popped_ne_throw hdata2 hstep
      rcases except_bind_eq_error.mp hstep with hstep | ⟨g, -, hstep⟩
      · exact get_ne_throw hstep
      rcases except_bind_eq_error.mp hstep with hstep | ⟨res1, -, hstep⟩
      · exact asserted_ne_throw hstep
      rcases except_bind_eq_error.mp hstep with hstep | ⟨res2, -, hstep⟩
      · exact asserted_ne_throw hstep
      · cases hstep
  · intro obj
    rfl
  · intro obj hkeeps
    cases IsFeedbackOutput with
    | false => rfl
    | true =>
      obtain ⟨hdata1, hdata2⟩ := hkeeps rfl
      show neutral (!true || (obj.m_data1.isEmpty && obj.m_data2.isEmpty)) = _
      rw [List.map_eq_nil_iff.mp hdata1.symm, List.map_eq_nil_iff.mp hdata2.symm]
      rfl

def interpolateMeaning : Meaning Port (Matrix ℝ) Empty where
  Eval _ x y := ∃ a b l r, x .InterpolateLayerWeight1 = some a ∧ x .InterpolateLayerWeight2 = some b ∧
    x .InterpolateLayerLambda = some l ∧ a.Interpolate b l = some r ∧ y = output r
  unique := by
    rintro _ x y y' ⟨a, b, l, r, ha, hb, hl, hr, rfl⟩ ⟨a', b', l', r', ha', hb', hl', hr', rfl⟩
    obtain rfl := Option.some.inj (ha.symm.trans ha')
    obtain rfl := Option.some.inj (hb.symm.trans hb')
    obtain rfl := Option.some.inj (hl.symm.trans hl')
    rw [Option.some.inj (hr.symm.trans hr')]

def KeepsInterpolation (IsFeedbackOutput : Bool) (obj : InterpolateObj ℝ) (xs : List (VarTypeDict Port (Matrix ℝ))) : Prop :=
  IsFeedbackOutput = true → xs.map (· .InterpolateLayerWeight1) = obj.m_weight1.map some ∧
    xs.map (· .InterpolateLayerWeight2) = obj.m_weight2.map some ∧
    xs.map (· .InterpolateLayerLambda) = obj.m_weight_lambda.map some

namespace Matrix

theorem hasVelocity_interpolate {a b l c : ℝ → Matrix ℝ} {da db dl : Nat → Nat → ℝ} (ha : HasVelocity a da)
    (hb : HasVelocity b db) (hl : HasVelocity l dl) (hc : ∀ τ, (a τ).Interpolate (b τ) (l τ) = some (c τ)) :
    HasVelocity c fun i j => (da i j * (l 0).val i j + (a 0).val i j * dl i j) +
      (db i j * (1 - (l 0).val i j) - (b 0).val i j * dl i j) := by
  obtain ⟨r, k, hshape, hda⟩ := ha
  obtain ⟨r', k', hshape', hdb⟩ := hb
  obtain ⟨r'', k'', hshape'', hdl⟩ := hl
  have hceq : ∀ τ, (SameShape (a τ) (b τ) ∧ SameShape (a τ) (l τ)) ∧ c τ = ⟨(a τ).RowNum, (a τ).ColNum, fun i j =>
      (a τ).val i j * (l τ).val i j + (b τ).val i j * (1 - (l τ).val i j)⟩ := by
    intro τ
    have h := hc τ
    unfold Interpolate at h
    split at h
    · next hshapes => exact ⟨hshapes, (Option.some.inj h).symm⟩
    · cases h
  obtain ⟨⟨⟨hrow, hcol⟩, hrow', hcol'⟩, -⟩ := hceq 0
  rw [(hshape 0).1, (hshape' 0).1] at hrow
  rw [(hshape 0).2, (hshape' 0).2] at hcol
  rw [(hshape 0).1, (hshape'' 0).1] at hrow'
  rw [(hshape 0).2, (hshape'' 0).2] at hcol'
  subst hrow hcol hrow' hcol'
  refine ⟨r'', k'', fun τ => ?_, fun i hi j hj => ?_⟩
  · rw [(hceq τ).2]
    exact hshape τ
  · simp only [(hceq _).2]
    have hleft := (hda i hi j hj).mul (hdl i hi j hj)
    have hright := (hdb i hi j hj).mul ((hdl i hi j hj).const_sub 1)
    refine (hleft.add hright).congr_deriv ?_
    ring

end Matrix

theorem isGradient_interpolate {θ : Empty → Matrix ℝ} {upd : Empty → Bool} {x grad : VarTypeDict Port (Matrix ℝ)}
    {weight1 weight2 lambda diff g res1 res2 res3 : Matrix ℝ} (h1 : x .InterpolateLayerWeight1 = some weight1)
    (h2 : x .InterpolateLayerWeight2 = some weight2) (h3 : x .InterpolateLayerLambda = some lambda)
    (hg : grad .LayerIo = some g) (hres1 : lambda.ElementMul g = some res1) (hres2 : lambda.OneMinus.ElementMul g = some res2)
    (hdiff : weight1.Substract weight2 = some diff) (hres3 : diff.ElementMul g = some res3) :
    IsGradient interpolateMeaning true upd θ x grad
      (((VarTypeDict.Create.Set .InterpolateLayerWeight1 (some res1)).Set .InterpolateLayerWeight2 (some res2)).Set
        .InterpolateLayerLambda (some res3)) fun _ => 0 := by
  intro Θ p X dX Y path
  choose a b l r ha hb hl hr hY using path.eval
  have ha0 := ha 0
  have hb0 := hb 0
  have hl0 := hl 0
  rw [path.inputs_start] at ha0 hb0 hl0
  obtain rfl := Option.some.inj (h1.symm.trans ha0)
  obtain rfl := Option.some.inj (h2.symm.trans hb0)
  obtain rfl := Option.some.inj (h3.symm.trans hl0)
  have hvel := Matrix.hasVelocity_interpolate (input_velocity path ha) (input_velocity path hb) (input_velocity path hl) hr
  refine ⟨_, by rw [funext hY]; exact recordVelocity_output hvel, ?_⟩
  rw [gradOn_single, gradOn_set _ _ rfl, gradOn_set _ _ rfl, gradOn_set _ _ rfl, gradOn_create, add_zero, add_zero, hg]
  show Matrix.inner g _ = Matrix.inner res3 _ + (Matrix.inner res2 _ + Matrix.inner res1 _)
  obtain ⟨-, hdiff⟩ := Matrix.zip_eq_some hdiff
  rw [Matrix.inner_zip_right (e := fun i j => dX .InterpolateLayerWeight1 i j * (l 0).val i j) hres1 (fun i j => by ring),
    Matrix.inner_zip_right (e := fun i j => dX .InterpolateLayerWeight2 i j * (1 - (l 0).val i j)) hres2
      (fun i j => by simp only [Matrix.OneMinus, Matrix.map]; ring),
    Matrix.inner_zip_right (e := fun i j => ((a 0).val i j - (b 0).val i j) * dX .InterpolateLayerLambda i j) hres3
      (fun i j => by rw [hdiff]; ring),
    ← Matrix.inner_add, ← Matrix.inner_add]
  congr 1
  funext i j
  simp only [Pi.add_apply, if_true]
  ring

theorem lawful_InterpolateLayer (IsFeedbackOutput : Bool) (upd : Empty → Bool) :
    Lawful (InterpolateLayer IsFeedbackOutput) interpolateMeaning IsFeedbackOutput upd
      (fun obj _ xs w => KeepsInterpolation IsFeedbackOutput obj xs ∧ w = fun _ => 0) := by
  apply lawful_weightless (KeepsInterpolation IsFeedbackOutput)
  · intro obj obj' θ xs x y hkeeps hstep
    obtain ⟨val1, hval1, hstep⟩ := except_bind_eq_ok.mp hstep
    obtain ⟨val2, hval2, hstep⟩ := except_bind_eq_ok.mp hstep
    obtain ⟨val3, hval3, hstep⟩ := except_bind_eq_ok.mp hstep
    obtain ⟨res, hres, hstep⟩ := except_bind_eq_ok.mp hstep
    obtain ⟨rfl, rfl⟩ := Prod.mk.inj (Except.ok.inj hstep)
    rw [get_eq_ok] at hval1 hval2 hval3
    refine ⟨⟨val1, val2, val3, res, hval1, hval2, hval3, asserted_eq_ok.mp hres, rfl⟩, ?_⟩
    rintro rfl
    obtain ⟨hdata1, hdata2, hdata3⟩ := hkeeps rfl
    rw [List.map_cons, List.map_cons, List.map_cons, hval1, hval2, hval3, hdata1, hdata2, hdata3]
    exact ⟨rfl, rfl, rfl⟩
  · intro obj obj' θ xs x grad gin hkeeps hstep
    cases IsFeedbackOutput with
    | false =>
      obtain ⟨rfl, rfl⟩ := Prod.mk.inj (Except.ok.inj hstep)
      exact ⟨fun h => absurd h Bool.false_ne_true, isGradient_none fun i => nomatch i⟩
    | true =>
      obtain ⟨hdata1, hdata2, hdata3⟩ := hkeeps rfl
      obtain ⟨⟨weight1, rest1⟩, htop1, hstep⟩ := except_bind_eq_ok.mp hstep
      obtain ⟨⟨weight2, rest2⟩, htop2, hstep⟩ := except_bind_eq_ok.mp hstep
      obtain ⟨⟨lambda, rest3⟩, htop3, hstep⟩ := except_bind_eq_ok.mp hstep
      obtain ⟨g, hg, hstep⟩ := except_bind_eq_ok.mp hstep
      obtain ⟨res1, hres1, hstep⟩ := except_bind_eq_ok.mp hstep
      obtain ⟨res2, hres2, hstep⟩ := except_bind_eq_ok.mp hstep
      obtain ⟨diff, hdiff, hstep⟩ := except_bind_eq_ok.mp hstep
      obtain ⟨res3, hres3, hstep⟩ := except_bind_eq_ok.mp hstep
      obtain ⟨rfl, rfl⟩ := Prod.mk.inj (Except.ok.inj hstep)
      rw [popped_eq_ok.mp htop1] at hdata1
      rw [popped_eq_ok.mp htop2] at hdata2
      rw [popped_eq_ok.mp htop3] at hdata3
      obtain ⟨h1, hrest1⟩ := List.cons.inj hdata1
      obtain ⟨h2, hrest2⟩ := List.cons.inj hdata2
      obtain ⟨h3, hrest3⟩ := List.cons.inj hdata3
      exact ⟨fun _ => ⟨hrest1, hrest2, hrest3⟩, isGradient_interpolate h1 h2 h3 (get_eq_ok.mp hg) (asserted_eq_ok.mp hres1)
        (asserted_eq_ok.mp hres2) (asserted_eq_ok.mp hdiff) (asserted_eq_ok.mp hres3)⟩
  · intro obj xs x grad what hkeeps hstep
    cases IsFeedbackOutput with
    | false => cases hstep
    | true =>
      obtain ⟨hdata1, hdata2, hdata3⟩ := hkeeps rfl
      rcases except_bind_eq_error.mp hstep with hstep | ⟨top1, -, hstep⟩
      · exact popped_ne_throw hdata1 hstep
      rcases except_bind_eq_error.mp hstep with hstep | ⟨top2, -, hstep⟩
      · exact popped_ne_throw hdata2 hstep
      rcases except_bind_eq_error.mp hstep with hstep | ⟨top3, -, hstep⟩
      · exact popped_ne_throw hdata3 hstep
      rcases except_bind_eq_error.mp hstep with hstep | ⟨g, -, hstep⟩
      · exact get_ne_throw hstep
      rcases except_bind_eq_error.mp hstep with hstep | ⟨res1, -, hstep⟩
      · exact asserted_ne_throw hstep
      rcases except_bind_eq_error.mp hstep with hstep | ⟨res2, -, hstep⟩
      · exact asserted_ne_throw hstep
      rcases except_bind_eq_error.mp hstep with hstep | ⟨diff, -, hstep⟩
      · exact asserted_ne_throw hstep
      rcases except_bind_eq_error.mp hstep with hstep | ⟨res3, -, hstep⟩
      · exact asserted_ne_throw hstep
      · cases hstep
  · intro obj
    rfl
  · intro obj hkeeps
    cases IsFeedbackOutput with
    | false => rfl
    | true =>
      obtain ⟨hdata1, hdata2, hdata3⟩ := hkeeps rfl
      show neutral (!true || (obj.m_weight1.isEmpty && obj.m_weight2.isEmpty && obj.m_weight_lambda.isEmpty)) = _
      rw [List.map_eq_nil_iff.mp hdata1.symm, List.map_eq_nil_iff.mp hdata2.symm, List.map_eq_nil_iff.mp hdata3.symm]
      rfl

def actionMeaning (f : ℝ → ℝ) : Meaning Port (Matrix ℝ) Empty where
  Eval _ x y := ∃ v, x .LayerIo = some v ∧ y = output (v.map f)
  unique := by
    rintro _ x y y' ⟨v, hv, rfl⟩ ⟨v', hv', rfl⟩
    rw [Option.some.inj (hv.symm.trans hv')]

/-- The values lie on the stack. -/
def KeepsValues (f : ℝ → ℝ) (IsFeedbackOutput : Bool) (m_data : List (Matrix ℝ)) (xs : List (VarTypeDict Port (Matrix ℝ))) :
    Prop :=
  IsFeedbackOutput = true → xs.map (fun x => (x .LayerIo).map (Matrix.map f)) = m_data.map some

/-- A layer of a function whose derivative the code takes from its value is lawful if it takes the right one. -/
theorem lawful_ActionLayer {f : ℝ → ℝ} {derivative : ℝ → ℝ → ℝ} (slope : ℝ → ℝ)
    (hslope : ∀ v, HasDerivAt f (slope v) v) (hderivative : ∀ g v, derivative g (f v) = g * slope v)
    (IsFeedbackOutput : Bool) (upd : Empty → Bool) :
    Lawful (ActionLayer f derivative IsFeedbackOutput) (actionMeaning f) IsFeedbackOutput upd
      (fun m_data _ xs w => KeepsValues f IsFeedbackOutput m_data xs ∧ w = fun _ => 0) := by
  apply lawful_weightless (KeepsValues f IsFeedbackOutput)
  · intro m_data m_data' θ xs x y hkeeps hstep
    obtain ⟨val, hval, hstep⟩ := except_bind_eq_ok.mp hstep
    obtain ⟨rfl, rfl⟩ := Prod.mk.inj (Except.ok.inj hstep)
    rw [get_eq_ok] at hval
    refine ⟨⟨val, hval, rfl⟩, ?_⟩
    rintro rfl
    rw [List.map_cons, hval, hkeeps rfl]
    rfl
  · intro m_data m_data' θ xs x grad gin hkeeps hstep
    cases IsFeedbackOutput with
    | false =>
      obtain ⟨rfl, rfl⟩ := Prod.mk.inj (Except.ok.inj hstep)
      exact ⟨fun h => absurd h Bool.false_ne_true, isGradient_none fun i => nomatch i⟩
    | true =>
      have hdata := hkeeps rfl
      obtain ⟨⟨tmp2, rest⟩, htop, hstep⟩ := except_bind_eq_ok.mp hstep
      obtain ⟨g, hg, hstep⟩ := except_bind_eq_ok.mp hstep
      obtain ⟨res, hres, hstep⟩ := except_bind_eq_ok.mp hstep
      obtain ⟨rfl, rfl⟩ := Prod.mk.inj (Except.ok.inj hstep)
      rw [popped_eq_ok.mp htop] at hdata
      rw [get_eq_ok] at hg
      rw [asserted_eq_ok] at hres
      obtain ⟨hx, hrest⟩ := List.cons.inj hdata
      obtain ⟨val, hval, rfl⟩ := Option.map_eq_some_iff.mp hx
      refine ⟨fun _ => hrest, ?_⟩
      intro Θ p X dX Y path
      choose v hv hY using path.eval
      have hv0 := hv 0
      rw [path.inputs_start] at hv0
      obtain rfl := Option.some.inj (hval.symm.trans hv0)
      have hvel := Matrix.hasVelocity_map (f := f) (input_velocity path hv)
        (d := fun i j => slope ((v 0).val i j) * dX .LayerIo i j)
        (by
          intro i j u hu0 hu
          rw [← hu0]
          exact (hslope (u 0)).comp 0 hu)
      refine ⟨_, by rw [funext hY]; exact recordVelocity_output hvel, ?_⟩
      rw [gradOn_single, gradOn_output, add_zero, hg]
      show Matrix.inner g _ = _
      symm
      apply Matrix.inner_zip_left hres
      intro i j
      show derivative (g.val i j) (f ((v 0).val i j)) * _ = _
      rw [hderivative]
      ring
  · intro m_data xs x grad what hkeeps hstep
    cases IsFeedbackOutput with
    | false => cases hstep
    | true =>
      have hdata := hkeeps rfl
      rcases except_bind_eq_error.mp hstep with hstep | ⟨top, -, hstep⟩
      · exact popped_ne_throw hdata hstep
      rcases except_bind_eq_error.mp hstep with hstep | ⟨g, -, hstep⟩
      · exact get_ne_throw hstep
      rcases except_bind_eq_error.mp hstep with hstep | ⟨res, -, hstep⟩
      · exact asserted_ne_throw hstep
      · cases hstep
  · intro m_data
    rfl
  · intro m_data hkeeps
    cases IsFeedbackOutput with
    | false => rfl
    | true =>
      show neutral (!true || m_data.isEmpty) = _
      rw [List.map_eq_nil_iff.mp (hkeeps rfl).symm]
      rfl

noncomputable instance : Elementary ℝ where
  exp := Real.exp
  tanh := Real.tanh

theorem hasDerivAt_sigmoid (v : ℝ) : HasDerivAt Sigmoid (Sigmoid v * (1 - Sigmoid v)) v := by
  have hpos : (1 : ℝ) + Real.exp (-v) ≠ 0 := by positivity
  have hexp : HasDerivAt (fun v : ℝ => 1 + Real.exp (-v)) (Real.exp (-v) * -1) v :=
    ((hasDerivAt_neg v).exp).const_add 1
  refine ((hasDerivAt_const v (1 : ℝ)).div hexp hpos).congr_deriv ?_
  show _ = 1 / (1 + Real.exp (-v)) * (1 - 1 / (1 + Real.exp (-v)))
  field_simp
  ring

theorem hasDerivAt_tanh (v : ℝ) : HasDerivAt Real.tanh (1 - Real.tanh v * Real.tanh v) v := by
  have hpos : Real.cosh v ≠ 0 := (Real.cosh_pos v).ne'
  have htanh : Real.tanh = fun v => Real.sinh v / Real.cosh v := funext Real.tanh_eq_sinh_div_cosh
  rw [htanh]
  refine ((Real.hasDerivAt_sinh v).div (Real.hasDerivAt_cosh v) hpos).congr_deriv ?_
  field_simp

theorem lawful_SigmoidLayer (IsFeedbackOutput : Bool) (upd : Empty → Bool) :
    Lawful (SigmoidLayer IsFeedbackOutput) (actionMeaning Sigmoid) IsFeedbackOutput upd
      (fun m_data _ xs w => KeepsValues Sigmoid IsFeedbackOutput m_data xs ∧ w = fun _ => 0) := by
  apply lawful_ActionLayer (fun v => Sigmoid v * (1 - Sigmoid v)) hasDerivAt_sigmoid
  intro g v
  exact mul_assoc g (Sigmoid v) (1 - Sigmoid v)

theorem lawful_TanhLayer (IsFeedbackOutput : Bool) (upd : Empty → Bool) :
    Lawful (TanhLayer IsFeedbackOutput) (actionMeaning Real.tanh) IsFeedbackOutput upd
      (fun m_data _ xs w => KeepsValues Real.tanh IsFeedbackOutput m_data xs ∧ w = fun _ => 0) :=
  lawful_ActionLayer (fun v => 1 - Real.tanh v * Real.tanh v) hasDerivAt_tanh (fun _ _ => rfl) IsFeedbackOutput upd

end Perception.MetaNN
