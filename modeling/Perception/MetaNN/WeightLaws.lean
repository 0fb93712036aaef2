import Perception.Lib.StateExcept
import Perception.MetaNN.Velocity

/-!
# The layers with weights

The weight layer and the bias layer give their gradients, to their inputs and to their weights.
-/
namespace Perception.MetaNN

set_option autoImplicit false

open Perception.Lib.StateExcept Finset

section

variable {Name V : Type} {d : VarTypeDict Name V} {name : Name} {v : V} {e : Fault} {what what' : String}

theorem get_eq_ok : d.Get name = .ok v ↔ d name = some v := by
  unfold VarTypeDict.Get
  cases d name with
  | none => exact iff_of_false (by simp) (by simp)
  | some a => exact ⟨fun h => by rw [Except.ok.inj h], fun h => by rw [Option.some.inj h]⟩

theorem get_ne_throw : d.Get name ≠ .error (.runtime_error what) := by
  unfold VarTypeDict.Get
  cases d name <;> simp

theorem asserted_eq_ok {o : Option V} : asserted o = .ok v ↔ o = some v := by
  cases o with
  | none => exact iff_of_false (by simp [asserted]) (by simp)
  | some a => exact ⟨fun h => by rw [Except.ok.inj h], fun h => by rw [Option.some.inj h]; rfl⟩

theorem asserted_ne_throw {o : Option V} : asserted o ≠ .error (.runtime_error what) := by
  cases o <;> simp [asserted]

theorem popped_eq_ok {l rest : List V} {top : V} : popped what l = .ok (top, rest) ↔ l = top :: rest := by
  cases l with
  | nil => exact iff_of_false (by simp [popped]) (by simp)
  | cons a l => simp [popped]

end

def weightMeaning {E : Type} [Zero E] [Add E] [Mul E] : Meaning Port (Matrix E) Unit where
  Eval θ x y := ∃ v r, x .LayerIo = some v ∧ v.Dot (θ ()) = some r ∧ y = output r
  unique := by
    rintro θ x y y' ⟨v, r, hv, hr, rfl⟩ ⟨v', r', hv', hr', rfl⟩
    obtain rfl := Option.some.inj (hv.symm.trans hv')
    rw [Option.some.inj (hr.symm.trans hr')]

/-- The inputs lie on one stack, what the gradients are on a velocity comes from the other. -/
def HoldsWeight (IsUpdate : Bool) (obj : WeightObj ℝ) (θ : Unit → Matrix ℝ) (xs : List (VarTypeDict Port (Matrix ℝ)))
    (w : (Unit → Nat → Nat → ℝ) → ℝ) : Prop :=
  obj.m_weight = θ () ∧ (IsUpdate = true → xs.map (· .LayerIo) = obj.m_updateInfo.map some) ∧
    (IsUpdate = false → obj.m_gradInfo = []) ∧ w = fun p => (obj.m_gradInfo.map fun g => Moving.pair g (p ())).sum

namespace Matrix

theorem dot_eq_some {E : Type} [AddCommMonoid E] [Mul E] {a b c : Matrix E} (h : a.Dot b = some c) :
    a.ColNum = b.RowNum ∧ c = ⟨a.RowNum, b.ColNum, fun i j => ∑ k ∈ range a.ColNum, a.val i k * b.val k j⟩ := by
  unfold Dot at h
  simp only [sumTo_eq] at h
  split at h
  · next hshape => exact ⟨hshape, (Option.some.inj h).symm⟩
  · cases h

/-- The velocity of a product. -/
def dotVelocity (a b : Matrix ℝ) (da db : Nat → Nat → ℝ) (i j : Nat) : ℝ :=
  ∑ k ∈ range a.ColNum, (da i k * b.val k j + a.val i k * db k j)

theorem hasVelocity_dot {a b c : ℝ → Matrix ℝ} {da db : Nat → Nat → ℝ} (ha : HasVelocity a da) (hb : HasVelocity b db)
    (hc : ∀ τ, (a τ).Dot (b τ) = some (c τ)) : HasVelocity c (dotVelocity (a 0) (b 0) da db) := by
  obtain ⟨r, k, hshape, hda⟩ := ha
  obtain ⟨r', k', hshape', hdb⟩ := hb
  have hmid := (dot_eq_some (hc 0)).1
  rw [(hshape 0).2, (hshape' 0).1] at hmid
  subst hmid
  have hceq := fun τ => (dot_eq_some (hc τ)).2
  refine ⟨r, k', fun τ => ?_, fun i hi j hj => ?_⟩
  · rw [hceq]
    exact ⟨(hshape τ).1, (hshape' τ).2⟩
  · simp only [hceq, dotVelocity, (hshape _).2]
    apply HasDerivAt.fun_sum
    intro n hn
    rw [mem_range] at hn
    exact (hda i hi n hn).mul (hdb n hn j hj)

/-- A gradient on the velocity of a product, taken to the left factor. -/
theorem inner_dot_left {g w gin : Matrix ℝ} {x : Matrix ℝ} (hx : x.ColNum = w.RowNum)
    (hgin : g.Dot w.Transpose = some gin) (dx : Nat → Nat → ℝ) :
    inner g (dotVelocity x w dx 0) = inner gin dx := by
  obtain ⟨hcol, rfl⟩ := dot_eq_some hgin
  unfold inner dotVelocity
  apply sum_congr rfl
  intro i _
  simp only [Pi.zero_apply, mul_zero, add_zero, Transpose, hx, mul_sum, sum_mul]
  rw [sum_comm]
  apply sum_congr rfl
  intro k _
  apply sum_congr rfl
  intro j _
  ring

/-- A gradient on the velocity of a product, taken to the right factor. -/
theorem inner_dot_right {g x w gw : Matrix ℝ} (hgw : x.Transpose.Dot g = some gw) (dw : Nat → Nat → ℝ) :
    inner g (dotVelocity x w 0 dw) = inner gw dw := by
  obtain ⟨hrow, rfl⟩ := dot_eq_some hgw
  unfold inner dotVelocity
  simp only [Pi.zero_apply, zero_mul, zero_add, Transpose, mul_sum, sum_mul] at hrow ⊢
  rw [hrow]
  calc ∑ i ∈ range g.RowNum, ∑ j ∈ range g.ColNum, ∑ k ∈ range x.ColNum, g.val i j * (x.val i k * dw k j)
      = ∑ i ∈ range g.RowNum, ∑ k ∈ range x.ColNum, ∑ j ∈ range g.ColNum, g.val i j * (x.val i k * dw k j) :=
        sum_congr rfl fun i _ => sum_comm
    _ = ∑ k ∈ range x.ColNum, ∑ i ∈ range g.RowNum, ∑ j ∈ range g.ColNum, g.val i j * (x.val i k * dw k j) := sum_comm
    _ = ∑ k ∈ range x.ColNum, ∑ j ∈ range g.ColNum, ∑ i ∈ range g.RowNum, x.val i k * g.val i j * dw k j := by
        apply sum_congr rfl
        intro k _
        rw [sum_comm]
        apply sum_congr rfl
        intro j _
        apply sum_congr rfl
        intro i _
        ring

theorem dotVelocity_add (a b : Matrix ℝ) (da db : Nat → Nat → ℝ) :
    dotVelocity a b da db = dotVelocity a b da 0 + dotVelocity a b 0 db := by
  funext i j
  simp [dotVelocity, sum_add_distrib]

theorem inner_add (g : Matrix ℝ) (d d' : Nat → Nat → ℝ) : inner g (d + d') = inner g d + inner g d' := by
  simp [inner, mul_add, sum_add_distrib]

end Matrix

/-- Where the gradient of an input is asked for the input moves as it does, elsewhere it stands still. -/
theorem input_velocity {W : Type} {M : Meaning Port (Matrix ℝ) W} {fbo : Bool} {upd : W → Bool} {θ : W → Matrix ℝ}
    {x : VarTypeDict Port (Matrix ℝ)} {Θ : ℝ → W → Matrix ℝ} {p : W → Nat → Nat → ℝ} {X Y : ℝ → VarTypeDict Port (Matrix ℝ)}
    {dX : Port → Nat → Nat → ℝ} (path : Path M fbo upd θ x Θ p X dX Y) {port : Port} {v : ℝ → Matrix ℝ}
    (hv : ∀ τ, X τ port = some (v τ)) : Matrix.HasVelocity v (if fbo then dX port else 0) := by
  cases fbo with
  | true => exact hasVelocity_of_entry (path.inputs port) hv
  | false =>
    have hstill : v = fun _ => v 0 := by
      funext τ
      have hx := fun τ => path.still_inputs.resolve_left Bool.false_ne_true τ
      apply Option.some.inj
      rw [← hv τ, ← hv 0, hx, hx]
    rw [hstill]
    exact Moving.hasVelocity_still (_ : Matrix ℝ)

/-- The same of a weight. -/
theorem weight_velocity {W : Type} {M : Meaning Port (Matrix ℝ) W} {fbo : Bool} {upd : W → Bool} {θ : W → Matrix ℝ}
    {x : VarTypeDict Port (Matrix ℝ)} {Θ : ℝ → W → Matrix ℝ} {p : W → Nat → Nat → ℝ} {X Y : ℝ → VarTypeDict Port (Matrix ℝ)}
    {dX : Port → Nat → Nat → ℝ} (path : Path M fbo upd θ x Θ p X dX Y) (i : W) :
    Matrix.HasVelocity (fun τ => Θ τ i) (if upd i then p i else 0) := by
  cases hupd : upd i with
  | true => exact path.weights i
  | false =>
    have hstill : (fun τ => Θ τ i) = fun _ => θ i := by
      funext τ
      exact (path.still_weights i).resolve_left (by rw [hupd]; exact Bool.false_ne_true) τ
    rw [hstill]
    exact Moving.hasVelocity_still (_ : Matrix ℝ)

/-- What the first block does. -/
theorem updateGrad_spec {IsUpdate : Bool} {grad : VarTypeDict Port (Matrix ℝ)} {obj obj' : WeightObj ℝ}
    (h : obj.updateGrad IsUpdate grad = .ok obj') :
    obj'.m_weight = obj.m_weight ∧ (IsUpdate = false → obj' = obj) ∧
      (IsUpdate = true → ∃ tmp top rest res, grad .LayerIo = some tmp ∧ obj.m_updateInfo = top :: rest ∧
        top.Transpose.Dot tmp = some res ∧ obj'.m_updateInfo = rest ∧ obj'.m_gradInfo = res :: obj.m_gradInfo) := by
  unfold WeightObj.updateGrad at h
  cases IsUpdate with
  | true =>
    rw [if_pos rfl] at h
    obtain ⟨tmp, htmp, h⟩ := except_bind_eq_ok.mp h
    obtain ⟨⟨top, rest⟩, htop, h⟩ := except_bind_eq_ok.mp h
    obtain ⟨res, hres, h⟩ := except_bind_eq_ok.mp h
    obtain rfl := Except.ok.inj h
    refine ⟨rfl, fun h => absurd h.symm Bool.false_ne_true, fun _ => ⟨tmp, top, rest, res, get_eq_ok.mp htmp, popped_eq_ok.mp htop,
      asserted_eq_ok.mp hres, rfl, rfl⟩⟩
  | false =>
    rw [if_neg Bool.false_ne_true] at h
    obtain rfl := Except.ok.inj h
    exact ⟨rfl, fun _ => rfl, fun h => by cases h⟩

theorem outputGrad_spec {IsFeedbackOutput : Bool} {grad gin : VarTypeDict Port (Matrix ℝ)} {obj : WeightObj ℝ}
    (h : obj.outputGrad IsFeedbackOutput grad = .ok gin) :
    (IsFeedbackOutput = false → gin = VarTypeDict.Create) ∧
      (IsFeedbackOutput = true → ∃ tmp res, grad .LayerIo = some tmp ∧ tmp.Dot obj.m_weight.Transpose = some res ∧
        gin = output res) := by
  unfold WeightObj.outputGrad at h
  cases IsFeedbackOutput with
  | true =>
    rw [if_pos rfl] at h
    obtain ⟨tmp, htmp, h⟩ := except_bind_eq_ok.mp h
    obtain ⟨res, hres, h⟩ := except_bind_eq_ok.mp h
    obtain rfl := Except.ok.inj h
    exact ⟨fun h => absurd h.symm Bool.false_ne_true, fun _ => ⟨tmp, res, get_eq_ok.mp htmp, asserted_eq_ok.mp hres, rfl⟩⟩
  | false =>
    rw [if_neg Bool.false_ne_true] at h
    exact ⟨fun _ => (Except.ok.inj h).symm, fun h => by cases h⟩

/-- What both blocks give is the gradient of the product. -/
theorem isGradient_weight {fbo upd : Bool} {θ : Unit → Matrix ℝ} {x grad gin : VarTypeDict Port (Matrix ℝ)}
    {δ : (Unit → Nat → Nat → ℝ) → ℝ} (hcreate : fbo = false → gin = VarTypeDict.Create)
    (hfeed : fbo = true → ∃ tmp res, grad .LayerIo = some tmp ∧ tmp.Dot (θ ()).Transpose = some res ∧ gin = output res)
    (hquiet : upd = false → ∀ p, δ p = 0)
    (hupdate : upd = true → ∃ tmp val res, grad .LayerIo = some tmp ∧ x .LayerIo = some val ∧
      val.Transpose.Dot tmp = some res ∧ ∀ p, δ p = Matrix.inner res (p ())) :
    IsGradient weightMeaning fbo (fun _ => upd) θ x grad gin δ := by
  intro Θ p X dX Y path
  choose v r hv hr hY using path.eval
  have hvel := Matrix.hasVelocity_dot (input_velocity path hv) (weight_velocity path ()) hr
  refine ⟨_, by rw [funext hY]; exact recordVelocity_output hvel, ?_⟩
  have hmid := (Matrix.dot_eq_some (hr 0)).1
  have hv0 := hv 0
  rw [path.inputs_start] at hv0
  rw [path.weights_start] at hmid ⊢
  rw [gradOn_single, Matrix.dotVelocity_add]
  have hstill : ∀ g, Matrix.inner g (Matrix.dotVelocity (v 0) (θ ()) 0 0) = 0 := by
    intro g
    simp [Matrix.inner, Matrix.dotVelocity]
  cases hgrad : grad .LayerIo with
  | none =>
    have hfbo : fbo = false := by
      cases fbo with
      | false => rfl
      | true =>
        obtain ⟨tmp, -, htmp, -⟩ := hfeed rfl
        rw [hgrad] at htmp
        cases htmp
    have hupd : upd = false := by
      cases upd with
      | false => rfl
      | true =>
        obtain ⟨tmp, -, -, htmp, -⟩ := hupdate rfl
        rw [hgrad] at htmp
        cases htmp
    rw [hcreate hfbo, hquiet hupd, gradOn_create, add_zero]
    rfl
  | some g =>
    show Matrix.inner g _ = _
    rw [Matrix.inner_add]
    congr 1
    · cases fbo with
      | false =>
        rw [hcreate rfl, gradOn_create]
        exact hstill g
      | true =>
        obtain ⟨tmp, res, htmp, hres, rfl⟩ := hfeed rfl
        obtain rfl := Option.some.inj (hgrad.symm.trans htmp)
        rw [gradOn_output]
        exact Matrix.inner_dot_left hmid hres _
    · cases upd with
      | false =>
        rw [hquiet rfl]
        exact hstill g
      | true =>
        obtain ⟨tmp, val, res, htmp, hval, hres, hδ⟩ := hupdate rfl
        obtain rfl := Option.some.inj (hgrad.symm.trans htmp)
        obtain rfl := Option.some.inj (hv0.symm.trans hval)
        rw [hδ]
        exact Matrix.inner_dot_right hres _

theorem lawful_WeightLayer (IsFeedbackOutput IsUpdate : Bool) :
    Lawful (WeightLayer IsFeedbackOutput IsUpdate) weightMeaning IsFeedbackOutput (fun _ => IsUpdate)
      (HoldsWeight IsUpdate) where
  forward := by
    rintro obj obj' θ xs w x y ⟨hweight, hstack, hnone, rfl⟩ hstep
    obtain ⟨val, hval, hstep⟩ := except_bind_eq_ok.mp hstep
    obtain ⟨res, hres, hstep⟩ := except_bind_eq_ok.mp hstep
    obtain ⟨rfl, rfl⟩ := Prod.mk.inj (Except.ok.inj hstep)
    rw [get_eq_ok] at hval
    rw [asserted_eq_ok] at hres
    cases IsUpdate with
    | true =>
      refine ⟨⟨val, res, hval, ?_, rfl⟩, hweight, fun _ => ?_, hnone, rfl⟩
      · rw [← hweight]
        exact hres
      · simp [hval, hstack rfl]
    | false =>
      refine ⟨⟨val, res, hval, ?_, rfl⟩, hweight, fun h => ?_, hnone, rfl⟩
      · rw [← hweight]
        exact hres
      · cases h
  backward := by
    rintro obj obj' θ xs w x grad gin ⟨hweight, hstack, hnone, rfl⟩ hstep
    obtain ⟨mid, hmid, hstep⟩ := except_bind_eq_ok.mp hstep
    obtain ⟨res, hres, hstep⟩ := except_bind_eq_ok.mp hstep
    obtain ⟨rfl, rfl⟩ := Prod.mk.inj (Except.ok.inj hstep)
    obtain ⟨hsame, hquiet, hupdate⟩ := updateGrad_spec hmid
    obtain ⟨hcreate, hfeed⟩ := outputGrad_spec hres
    rw [hsame, hweight] at hfeed
    cases IsUpdate with
    | true =>
      obtain ⟨tmp, top, rest, gw, htmp, htop, hgw, hrest, hgrads⟩ := hupdate rfl
      have hstack := hstack rfl
      rw [htop, List.map_cons, List.map_cons] at hstack
      obtain ⟨hx, hxs⟩ := List.cons.inj hstack
      refine ⟨fun p => Matrix.inner gw (p ()), ⟨hsame.trans hweight, fun _ => ?_, fun h => absurd h.symm Bool.false_ne_true, ?_⟩,
        isGradient_weight hcreate hfeed (fun h => absurd h.symm Bool.false_ne_true)
          fun _ => ⟨tmp, top, gw, htmp, hx, hgw, fun _ => rfl⟩⟩
      · rw [hrest, hxs]
      · funext p
        rw [hgrads, List.map_cons, List.sum_cons, add_comm]
        rfl
    | false =>
      obtain rfl := hquiet rfl
      refine ⟨fun _ => 0, ⟨hweight, fun h => absurd h Bool.false_ne_true, hnone, ?_⟩,
        isGradient_weight hcreate hfeed (fun _ _ => rfl) fun h => absurd h Bool.false_ne_true⟩
      funext p
      exact add_zero _
  noThrow := by
    rintro obj θ xs w x grad what ⟨hweight, hstack, hnone, rfl⟩ hstep
    rcases except_bind_eq_error.mp hstep with hstep | ⟨mid, -, hstep⟩
    · unfold WeightObj.updateGrad at hstep
      split at hstep
      · next hupd =>
        rcases except_bind_eq_error.mp hstep with hstep | ⟨tmp, -, hstep⟩
        · exact get_ne_throw hstep
        rcases except_bind_eq_error.mp hstep with hstep | ⟨top, -, hstep⟩
        · have hstack := hstack hupd
          cases hinfo : obj.m_updateInfo with
          | nil =>
            rw [hinfo] at hstack
            cases hstack
          | cons top rest =>
            rw [hinfo] at hstep
            cases hstep
        rcases except_bind_eq_error.mp hstep with hstep | ⟨res, -, hstep⟩
        · exact asserted_ne_throw hstep
        · cases hstep
      · cases hstep
    · rcases except_bind_eq_error.mp hstep with hstep | ⟨res, -, hstep⟩
      · unfold WeightObj.outputGrad at hstep
        split at hstep
        · rcases except_bind_eq_error.mp hstep with hstep | ⟨tmp, -, hstep⟩
          · exact get_ne_throw hstep
          rcases except_bind_eq_error.mp hstep with hstep | ⟨res, -, hstep⟩
          · exact asserted_ne_throw hstep
          · cases hstep
        · cases hstep
      · cases hstep
  collect := by
    rintro obj θ xs w ⟨hweight, hstack, hnone, rfl⟩
    cases IsUpdate with
    | true =>
      refine ⟨⟨hweight, hstack, fun _ => rfl, rfl⟩, fun p => ?_⟩
      show _ = ((obj.m_gradInfo.map fun g => ((), g)).map fun g => Moving.pair g.2 (p g.1)).sum
      rw [List.map_map]
      rfl
    | false =>
      have hnil := hnone rfl
      refine ⟨⟨hweight, hstack, hnone, ?_⟩, fun p => ?_⟩
      · funext p
        show (0 : ℝ) = (obj.m_gradInfo.map _).sum
        rw [hnil]
        rfl
      · rw [hnil]
        rfl
  neutral := by
    rintro obj θ w ⟨hweight, hstack, hnone, rfl⟩
    cases IsUpdate with
    | true =>
      have hnil : obj.m_updateInfo = [] := List.map_eq_nil_iff.mp (hstack rfl).symm
      show neutral (!true || (obj.m_updateInfo.isEmpty && true)) = _
      rw [hnil]
      rfl
    | false => rfl

end Perception.MetaNN
