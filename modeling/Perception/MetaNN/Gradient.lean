import Perception.MetaNN.Backward

/-!
# Gradients of layers

What a layer computes, curves of its weights and inputs, and when what a backward step gives is the
gradient of a forward step. The gradients of the sublayers make up that of a composed layer.
-/
namespace Perception.MetaNN

set_option autoImplicit false

open Perception.Lib.Precedence Perception.Lib.Wiring

variable {Tag Name Layer V D : Type} [Fintype Name] [Plus V] [Zero D] [Moving V D]

/-- What a layer computes from its weights and its inputs. -/
structure Meaning (Name V W : Type) where
  Eval : (W → V) → VarTypeDict Name V → VarTypeDict Name V → Prop
  unique {θ : W → V} {x y y' : VarTypeDict Name V} : Eval θ x y → Eval θ x y' → y = y'

/-- An entry is there all along and has the velocity, or is missing all along. -/
def EntryVelocity (f : ℝ → Option V) (d : D) : Prop :=
  (∃ g, (∀ τ, f τ = some (g τ)) ∧ Moving.HasVelocity g d) ∨ (∀ τ, f τ = none) ∧ d = 0

def RecordVelocity (X : ℝ → VarTypeDict Name V) (dX : Name → D) : Prop := ∀ name, EntryVelocity (fun τ => X τ name) (dX name)

/-- Weights and inputs that move through a point. Weights that the layer does not update stand still, and
so do inputs that it passes no gradient to. -/
structure Path {W : Type} (M : Meaning Name V W) (IsFeedbackOutput : Bool) (IsUpdate : W → Bool) (θ : W → V)
    (x : VarTypeDict Name V) (Θ : ℝ → W → V) (p : W → D) (X : ℝ → VarTypeDict Name V) (dX : Name → D)
    (Y : ℝ → VarTypeDict Name V) : Prop where
  weights_start : Θ 0 = θ
  inputs_start : X 0 = x
  eval : ∀ τ, M.Eval (Θ τ) (X τ) (Y τ)
  weights : ∀ i, Moving.HasVelocity (fun τ => Θ τ i) (p i)
  inputs : RecordVelocity X dX
  still_weights : ∀ i, IsUpdate i = true ∨ ∀ τ, Θ τ i = θ i
  still_inputs : IsFeedbackOutput = true ∨ ∀ τ, X τ = x

/-- The gradients that a backward step gives: along every path, what reaches the outputs is what it gives
to the inputs and to the weights. -/
def IsGradient {W : Type} (M : Meaning Name V W) (IsFeedbackOutput : Bool) (IsUpdate : W → Bool) (θ : W → V)
    (x grad gin : VarTypeDict Name V) (δ : (W → D) → ℝ) : Prop :=
  ∀ Θ p X dX Y, Path M IsFeedbackOutput IsUpdate θ x Θ p X dX Y →
    ∃ dY, RecordVelocity Y dY ∧ gradOn grad dY = gradOn gin dX + δ p

omit [Fintype Name] in
theorem recordVelocity_still (x : VarTypeDict Name V) : RecordVelocity (fun _ => x) (fun _ => (0 : D)) := by
  intro name
  cases hx : x name with
  | none => exact .inr ⟨fun _ => hx, rfl⟩
  | some v => exact .inl ⟨fun _ => v, fun _ => hx, Moving.hasVelocity_still v⟩

variable [DecidableEq Tag] [DecidableEq Name]

omit [Fintype Name] in
/-- Wires bring velocities as they bring values. -/
theorem recordVelocity_brought {C : Type} {sel : C → Prop} [DecidablePred sel] {key : C → Name} {val : ℝ → C → Option V}
    {dval : C → D} {l : List C} {other : ℝ → VarTypeDict Name V} {dother : Name → D}
    (hval : ∀ c ∈ l, sel c → EntryVelocity (fun τ => val τ c) (dval c)) (hother : RecordVelocity other dother) :
    RecordVelocity (fun τ => brought sel key (val τ) l (other τ)) (brought sel key dval l dother) := by
  intro name
  cases hfind : l.find? fun c => sel c ∧ key c = name with
  | none =>
    simp only [brought, hfind]
    exact hother name
  | some c =>
    have hc := List.find?_some hfind
    simp only [decide_eq_true_eq] at hc
    simp only [brought, hfind]
    exact hval c (List.mem_of_find?_eq_some hfind) hc.1

section

variable {W : Tag → Type} (topo : ComposeTopology Tag Name Layer) (M : ∀ tag, Meaning Name V (W tag))

/-- The results of the sublayers solve the equations. -/
def Solves (θ : (Σ tag, W tag) → V) (x : VarTypeDict Name V) (res : Tag → VarTypeDict Name V) : Prop :=
  ∀ t ∈ topo.tags, (M t).Eval (fun i => θ ⟨t, i⟩) (portIn topo x res t) (res t)

variable {topo M}

omit [Fintype Name] [Plus V] in
theorem Solves.unique {θ : (Σ tag, W tag) → V} {x : VarTypeDict Name V} {res res' : Tag → VarTypeDict Name V}
    (h : Solves topo M θ x res) (h' : Solves topo M θ x res') : ∀ t ∈ topo.tags, res t = res' t := by
  refine topo.inOrder_tags.induction (P := fun t => res t = res' t) ?_
  intro t ht ih
  have heval := h t ht
  rw [portIn_congr ih] at heval
  exact (M t).unique heval (h' t ht)

variable (topo M) in
def composeMeaning : Meaning Name V (Σ tag, W tag) where
  Eval θ x y := ∃ res, Solves topo M θ x res ∧ y = portOut topo res
  unique := by
    rintro θ x y y' ⟨res, h, rfl⟩ ⟨res', h', rfl⟩
    rw [← outputOf_tags, ← outputOf_tags]
    exact outputOf_congr (h.unique h')

/-- The velocities that connections bring to the inputs of a sublayer. -/
def velocityIn (topo : ComposeTopology Tag Name Layer) (dX : Name → D) (dres : Tag → Name → D) (tag : Tag) : Name → D :=
  brought (·.InTag = tag) InternalConnect.InName (fun c => dres c.OutTag c.OutName) topo.InterConnects
    (brought (·.InLayerTag = tag) InConnect.InLayerName (fun c => dX c.InName) topo.InputConnects fun _ => 0)

def velocityOut (topo : ComposeTopology Tag Name Layer) (dres : Tag → Name → D) : Name → D :=
  brought (fun _ => True) OutConnect.OutName (fun c => dres c.OutLayerTag c.OutLayerName) topo.OutputConnects fun _ => 0

variable {dX : Name → D} {dres dres' : Tag → Name → D}

omit [DecidableEq Name] in
theorem pairing_still (g : VarTypeDict Name V) : pairing Moving.pair g (fun _ => (0 : D)) = 0 := by
  apply Finset.sum_eq_zero
  intro name _
  cases g name with
  | none => rfl
  | some v => exact Moving.pair_still v

omit [Fintype Name] in
theorem velocityIn_congr {tag : Tag} (h : ∀ prev, Feeds topo.InterConnects prev tag → dres prev = dres' prev) :
    velocityIn topo dX dres tag = velocityIn topo dX dres' tag := by
  apply brought_congr (fun _ _ => Iff.rfl)
  intro c hc hsel
  rw [h c.OutTag ⟨c, hc, rfl, hsel⟩]

omit [Fintype Name] in
theorem recordVelocity_portIn {X : ℝ → VarTypeDict Name V} {R : ℝ → Tag → VarTypeDict Name V} {tag : Tag}
    (hX : RecordVelocity X dX)
    (hR : ∀ prev, Feeds topo.InterConnects prev tag → RecordVelocity (fun τ => R τ prev) (dres prev)) :
    RecordVelocity (fun τ => portIn topo (X τ) (R τ) tag) (velocityIn topo dX dres tag) := by
  apply recordVelocity_brought
  · intro c hc hsel
    exact hR c.OutTag ⟨c, hc, rfl, hsel⟩ c.OutName
  · apply recordVelocity_brought
    · intro c _ _
      exact hX c.InName
    · exact recordVelocity_still VarTypeDict.Create

variable {grad : VarTypeDict Name V} {gin : Tag → VarTypeDict Name V}

omit [Fintype Name] [DecidableEq Name] in
/-- What reaches all sublayers comes from the outputs and from the sublayers behind. -/
theorem sum_reaching : (topo.tags.map fun t => reaching topo grad gin t (dres t)).sum =
    (topo.OutputConnects.map fun c => entryOn (grad c.OutName) (dres c.OutLayerTag c.OutLayerName)).sum +
      (topo.InterConnects.map fun c => entryOn (gin c.InTag c.InName) (dres c.OutTag c.OutName)).sum := by
  have houts : ∀ t, wireSum (·.OutLayerTag = t) (fun c => entryOn (grad c.OutName) (dres t c.OutLayerName))
      topo.OutputConnects = wireSum (·.OutLayerTag = t)
        (fun c => entryOn (grad c.OutName) (dres c.OutLayerTag c.OutLayerName)) topo.OutputConnects := by
    intro t
    apply wireSum_congr
    rintro c - rfl
    rfl
  have hinters : ∀ t, wireSum (·.OutTag = t) (fun c => entryOn (gin c.InTag c.InName) (dres t c.OutName))
      topo.InterConnects = wireSum (·.OutTag = t)
        (fun c => entryOn (gin c.InTag c.InName) (dres c.OutTag c.OutName)) topo.InterConnects := by
    intro t
    apply wireSum_congr
    rintro c - rfl
    rfl
  unfold reaching
  simp only [houts, hinters]
  rw [List.sum_map_add]
  congr 1
  · exact sum_wireSum topo.nodup_tags fun c hc => topo.mem_tags.mpr (topo.asserts.outputTag c hc)
  · exact sum_wireSum topo.nodup_tags fun c hc => topo.mem_tags.mpr (topo.asserts.internalTag c hc).1

/-- No input of a sublayer comes from two kinds of connections. -/
def NoPortTwice (topo : ComposeTopology Tag Name Layer) : Prop :=
  ∀ c ∈ topo.InterConnects, ∀ c' ∈ topo.InputConnects, c.InTag = c'.InLayerTag → c.InName ≠ c'.InLayerName

/-- What all sublayers give goes to the sublayers in front and to the inputs. -/
theorem sum_velocityIn (hports : NoPortTwice topo) :
    (topo.tags.map fun t => gradOn (gin t) (velocityIn topo dX dres t)).sum =
      (topo.InterConnects.map fun c => entryOn (gin c.InTag c.InName) (dres c.OutTag c.OutName)).sum +
        (topo.tags.map (leaving topo gin dX)).sum := by
  have hsub : ∀ t, gradOn (gin t) (velocityIn topo dX dres t) =
      wireSum (·.InTag = t) (fun c => entryOn (gin c.InTag c.InName) (dres c.OutTag c.OutName)) topo.InterConnects +
        leaving topo gin dX t := by
    intro t
    have hfree : ∀ c ∈ topo.InterConnects, c.InTag = t →
        brought (·.InLayerTag = t) InConnect.InLayerName (fun c => dX c.InName) topo.InputConnects (fun _ => 0) c.InName
          = 0 := by
      intro c hc htag
      apply brought_of_forall
      intro c' hc' htag' heq
      exact hports c hc c' hc' (htag.trans htag'.symm) heq.symm
    have hbrought : gradOn (gin t) (velocityIn topo dX dres t) = _ :=
      pairing_brought Moving.pair_still (gin t) (topo.pairwise_internal t) hfree
    rw [hbrought, pairing_brought Moving.pair_still (gin t) (topo.pairwise_input t) fun _ _ _ => rfl, pairing_still, add_zero]
    congr 1
    apply wireSum_congr
    rintro c - rfl
    rfl
  simp only [hsub]
  rw [List.sum_map_add]
  congr 1
  exact sum_wireSum topo.nodup_tags fun c hc => topo.mem_tags.mpr (topo.asserts.internalTag c hc).2

theorem gradOn_velocityOut : gradOn grad (velocityOut topo dres) =
    (topo.OutputConnects.map fun c => entryOn (grad c.OutName) (dres c.OutLayerTag c.OutLayerName)).sum := by
  have hbrought : gradOn grad (velocityOut topo dres) = _ :=
    pairing_brought Moving.pair_still grad (topo.pairwise_output fun _ => True) fun _ _ _ => rfl
  rw [hbrought, pairing_still, add_zero]
  simp only [wireSum, if_true]
  rfl

/-- The policies of the sublayers agree with that of the layer: they all feed back if it does, and one
behind a sublayer that feeds back or updates feeds back. -/
structure PoliciesAgree (topo : ComposeTopology Tag Name Layer) (plainFBO : Bool) (IsFeedbackOutput : Tag → Bool)
    (IsUpdate : ∀ tag, W tag → Bool) : Prop where
  all : plainFBO = true → ∀ t ∈ topo.tags, IsFeedbackOutput t = true
  behind : ∀ a b, Feeds topo.InterConnects a b → (IsFeedbackOutput a = true ∨ ∃ i, IsUpdate a i = true) →
    IsFeedbackOutput b = true

omit [Fintype Name] [DecidableEq Name] in
theorem mem_tags_of_feeds {a b : Tag} (h : Feeds topo.InterConnects a b) : a ∈ topo.tags ∧ b ∈ topo.tags := by
  obtain ⟨c, hc, rfl, rfl⟩ := h
  exact ⟨topo.mem_tags.mpr (topo.asserts.internalTag c hc).1, topo.mem_tags.mpr (topo.asserts.internalTag c hc).2⟩

variable {plainFBO : Bool} {fbo : Tag → Bool} {upd : ∀ tag, W tag → Bool} {θ : (Σ tag, W tag) → V} {x : VarTypeDict Name V}
  {res : Tag → VarTypeDict Name V} {Θ : ℝ → (Σ tag, W tag) → V} {p : (Σ tag, W tag) → D} {X Y : ℝ → VarTypeDict Name V}
  {R : ℝ → Tag → VarTypeDict Name V}

omit [Fintype Name] in
/-- A sublayer that passes no gradient on has inputs that stand still. -/
theorem still_portIn (hpol : PoliciesAgree topo plainFBO fbo upd) (hsolves : Solves topo M θ x res)
    (path : Path (composeMeaning topo M) plainFBO (fun i => upd i.1 i.2) θ x Θ p X dX Y)
    (hR : ∀ τ, Solves topo M (Θ τ) (X τ) (R τ)) :
    ∀ t ∈ topo.tags, fbo t = true ∨ ∀ τ, portIn topo (X τ) (R τ) t = portIn topo x res t := by
  refine topo.inOrder_tags.induction (P := fun t => fbo t = true ∨ ∀ τ, portIn topo (X τ) (R τ) t = portIn topo x res t) ?_
  intro t ht ih
  by_cases hfbo : fbo t = true
  · exact .inl hfbo
  right
  intro τ
  have hX : X τ = x := by
    rcases path.still_inputs with hplain | hstill
    · exact absurd (hpol.all hplain t ht) hfbo
    · exact hstill τ
  rw [hX]
  apply portIn_congr
  intro prev hfeeds
  have hprev := (mem_tags_of_feeds hfeeds).1
  have hquiet := fun h => hfbo (hpol.behind prev t hfeeds h)
  have hin : portIn topo (X τ) (R τ) prev = portIn topo x res prev := by
    rcases ih prev hfeeds with hout | hstill
    · exact absurd (.inl hout) hquiet
    · exact hstill τ
  have hweights : (fun i => Θ τ ⟨prev, i⟩) = fun i => θ ⟨prev, i⟩ := by
    funext i
    rcases path.still_weights ⟨prev, i⟩ with hupd | hstill
    · exact absurd (.inr ⟨i, hupd⟩) hquiet
    · exact hstill τ
  have heval := hR τ prev hprev
  rw [hin, hweights] at heval
  exact (M prev).unique heval (hsolves prev hprev)

/-- Sublayers that give their gradients make a layer that gives its gradient. -/
theorem isGradient_compose (hports : NoPortTwice topo) (hpol : PoliciesAgree topo plainFBO fbo upd)
    (hsolves : Solves topo M θ x res) {g : Tag → VarTypeDict Name V} {δ : ∀ tag, (W tag → D) → ℝ}
    {out : VarTypeDict Name V}
    (hsub : ∀ t ∈ topo.tags, IsGradient (M t) (fbo t) (upd t) (fun i => θ ⟨t, i⟩) (portIn topo x res t) (g t) (gin t) (δ t))
    (hreach : ∀ t ∈ topo.tags, ∀ d : Name → D, gradOn (g t) d = reaching topo grad gin t d)
    (hout : ∀ d : Name → D, gradOn out d = (topo.tags.map (leaving topo gin d)).sum) :
    IsGradient (composeMeaning topo M) plainFBO (fun i => upd i.1 i.2) θ x grad out
      fun p => (topo.tags.map fun t => δ t fun i => p ⟨t, i⟩).sum := by
  intro Θ p X dX Y path
  choose R hR hY using path.eval
  have hstill := still_portIn hpol hsolves path hR
  have hres : ∀ t ∈ topo.tags, R 0 t = res t := by
    have h0 := hR 0
    rw [path.weights_start, path.inputs_start] at h0
    exact h0.unique hsolves
  -- the velocities of the results, one sublayer after the other
  obtain ⟨dres, hdres⟩ := topo.inOrder_tags.exists_values (β := Name → D)
    (Q := fun t dres => RecordVelocity (fun τ => R τ t) (dres t) ∧
      gradOn (g t) (dres t) = gradOn (gin t) (velocityIn topo dX dres t) + δ t fun i => p ⟨t, i⟩)
    topo.nodup_tags (fun _ _ => 0)
    (by
      intro t dres dres' hprev ht hQ
      rwa [ht, velocityIn_congr hprev] at hQ)
    (by
      intro t ht dres hprev
      have hpath : Path (M t) (fbo t) (upd t) (fun i => θ ⟨t, i⟩) (portIn topo x res t) (fun τ i => Θ τ ⟨t, i⟩)
          (fun i => p ⟨t, i⟩) (fun τ => portIn topo (X τ) (R τ) t) (velocityIn topo dX dres t) (fun τ => R τ t) := by
        refine ⟨?_, ?_, fun τ => hR τ t ht, fun i => path.weights ⟨t, i⟩, ?_, fun i => path.still_weights ⟨t, i⟩, hstill t ht⟩
        · rw [path.weights_start]
        · rw [path.inputs_start]
          exact portIn_congr fun prev hfeeds => hres prev (mem_tags_of_feeds hfeeds).1
        · exact recordVelocity_portIn path.inputs fun prev hfeeds => (hprev prev hfeeds).1
      obtain ⟨dY, hmoves, hgrad⟩ := hsub t ht _ _ _ _ _ hpath
      have hother : velocityIn topo dX (Function.update dres t dY) t = velocityIn topo dX dres t := by
        apply velocityIn_congr
        rintro prev ⟨c, hc, rfl, rfl⟩
        exact Function.update_of_ne (topo.asserts.noSelfCycle c hc).symm _ _
      refine ⟨dY, ?_⟩
      rw [Function.update_self, hother]
      exact ⟨hmoves, hgrad⟩)
  refine ⟨velocityOut topo dres, ?_, ?_⟩
  · have hYeq : Y = fun τ => portOut topo (R τ) := funext hY
    rw [hYeq]
    apply recordVelocity_brought
    · intro c hc _
      exact (hdres c.OutLayerTag (topo.mem_tags.mpr (topo.asserts.outputTag c hc))).1 c.OutLayerName
    · exact recordVelocity_still VarTypeDict.Create
  · have hleft : (topo.tags.map fun t => gradOn (g t) (dres t)).sum =
        (topo.tags.map fun t => reaching topo grad gin t (dres t)).sum := by
      congr 1
      exact List.map_congr_left fun t ht => hreach t ht (dres t)
    have hright : (topo.tags.map fun t => gradOn (g t) (dres t)).sum =
        (topo.tags.map fun t => gradOn (gin t) (velocityIn topo dX dres t) + δ t fun i => p ⟨t, i⟩).sum := by
      congr 1
      exact List.map_congr_left fun t ht => (hdres t ht).2
    rw [List.sum_map_add, sum_velocityIn hports] at hright
    rw [sum_reaching] at hleft
    rw [gradOn_velocityOut, hout]
    linarith

end

end Perception.MetaNN
