import Perception.MetaNN.Networks
import Perception.MetaNN.Training

/-!
# The composed layers of the library

The linear layer, the single layer, and any topology of elementary layers with policies for its sublayers.
-/
namespace Perception.MetaNN

set_option autoImplicit false
set_option maxRecDepth 4000

open Perception.Lib.Precedence

inductive LinearSublayer where
  | WeightSublayer
  | BiasSublayer
  deriving DecidableEq

def linearParameters : List (ComposeKernelInfo LinearSublayer Port LayerTemplate) :=
  [.subLayer ⟨.WeightSublayer, .WeightLayer⟩,
   .subLayer ⟨.BiasSublayer, .BiasLayer⟩,
   .inConnect ⟨.LayerIo, .WeightSublayer, .LayerIo⟩,
   .internalConnect ⟨.WeightSublayer, .LayerIo, .BiasSublayer, .LayerIo⟩,
   .outConnect ⟨.BiasSublayer, .LayerIo, .LayerIo⟩]

def LinearLayer : ComposeTopology LinearSublayer Port LayerTemplate where
  toSeparateRes := SeparateParameters_ ⟨[], [], [], []⟩ linearParameters
  asserts := ⟨by decide, by decide, by decide, by decide, by decide, by decide, by decide, by decide, by decide, by decide,
    by decide, by decide⟩
  TopologicalOrdering := [⟨.WeightSublayer, .WeightLayer⟩, ⟨.BiasSublayer, .BiasLayer⟩]
  ordering := by
    rw [TopologicalOrdering_eq_bounded]
    decide

inductive SingleSublayer where
  | WeightSublayer
  | BiasSublayer
  | ActionSublayer
  deriving DecidableEq

inductive ActionTypeCate where
  | Sigmoid
  | Tanh

def ActPick_ : ActionTypeCate → LayerTemplate
  | .Sigmoid => .SigmoidLayer
  | .Tanh => .TanhLayer

/-- `TopologyHelper` -/
def singleParameters (hasBias : Bool) (TActLayer : LayerTemplate) :
    List (ComposeKernelInfo SingleSublayer Port LayerTemplate) :=
  if hasBias then
    [.subLayer ⟨.WeightSublayer, .WeightLayer⟩,
     .subLayer ⟨.BiasSublayer, .BiasLayer⟩,
     .subLayer ⟨.ActionSublayer, TActLayer⟩,
     .inConnect ⟨.LayerIo, .WeightSublayer, .LayerIo⟩,
     .internalConnect ⟨.WeightSublayer, .LayerIo, .BiasSublayer, .LayerIo⟩,
     .internalConnect ⟨.BiasSublayer, .LayerIo, .ActionSublayer, .LayerIo⟩,
     .outConnect ⟨.ActionSublayer, .LayerIo, .LayerIo⟩]
  else
    [.subLayer ⟨.WeightSublayer, .WeightLayer⟩,
     .subLayer ⟨.ActionSublayer, TActLayer⟩,
     .inConnect ⟨.LayerIo, .WeightSublayer, .LayerIo⟩,
     .internalConnect ⟨.WeightSublayer, .LayerIo, .ActionSublayer, .LayerIo⟩,
     .outConnect ⟨.ActionSublayer, .LayerIo, .LayerIo⟩]

def singleOrdering (hasBias : Bool) (TActLayer : LayerTemplate) : List (SubLayer SingleSublayer LayerTemplate) :=
  if hasBias then [⟨.WeightSublayer, .WeightLayer⟩, ⟨.BiasSublayer, .BiasLayer⟩, ⟨.ActionSublayer, TActLayer⟩]
  else [⟨.WeightSublayer, .WeightLayer⟩, ⟨.ActionSublayer, TActLayer⟩]

def SingleLayer (HasBias : Bool) (Action : ActionTypeCate) : ComposeTopology SingleSublayer Port LayerTemplate where
  toSeparateRes := SeparateParameters_ ⟨[], [], [], []⟩ (singleParameters HasBias (ActPick_ Action))
  asserts := by
    cases HasBias <;> cases Action <;>
      exact ⟨by decide, by decide, by decide, by decide, by decide, by decide, by decide, by decide, by decide, by decide,
        by decide, by decide⟩
  TopologicalOrdering := singleOrdering HasBias (ActPick_ Action)
  ordering := by
    rw [TopologicalOrdering_eq_bounded]
    cases HasBias <;> cases Action <;> decide

/-- A policy for feedback; none passes on or updates by default. -/
structure FeedbackPolicy where
  IsUpdate : Bool
  IsFeedbackOutput : Bool

section

variable {Tag : Type}

/-- Every sublayer with what the picker finds for its tag. -/
def GetSublayerPolicy {Layer : Type} (SubPolicyPicker : Tag → FeedbackPolicy) :
    List (SubLayer Tag Layer) → List (SublayerPolicies Tag Layer)
  | [] => []
  | cur :: rest =>
    ⟨cur.Tag, cur.Layer, (SubPolicyPicker cur.Tag).IsFeedbackOutput, (SubPolicyPicker cur.Tag).IsUpdate⟩ ::
      GetSublayerPolicy SubPolicyPicker rest

theorem GetSublayerPolicy_tags {Layer : Type} (SubPolicyPicker : Tag → FeedbackPolicy) (layers : List (SubLayer Tag Layer)) :
    (GetSublayerPolicy SubPolicyPicker layers).map SublayerPolicies.Tag = layers.map SubLayer.Tag := by
  induction layers with
  | nil => rfl
  | cons cur rest ih => rw [GetSublayerPolicy, List.map_cons, List.map_cons, ih]

theorem isUpdate_of_mem {Layer : Type} {SubPolicyPicker : Tag → FeedbackPolicy} {layers : List (SubLayer Tag Layer)}
    {l : SublayerPolicies Tag Layer} (hl : l ∈ GetSublayerPolicy SubPolicyPicker layers) :
    l.IsUpdate = (SubPolicyPicker l.Tag).IsUpdate := by
  induction layers with
  | nil => cases hl
  | cons cur rest ih =>
    rcases List.mem_cons.mp hl with rfl | hl
    · rfl
    · exact ih hl

theorem isFeedbackOutput_of_mem {Layer : Type} {SubPolicyPicker : Tag → FeedbackPolicy} {layers : List (SubLayer Tag Layer)}
    {l : SublayerPolicies Tag Layer} (hl : l ∈ GetSublayerPolicy SubPolicyPicker layers) :
    l.IsFeedbackOutput = (SubPolicyPicker l.Tag).IsFeedbackOutput := by
  induction layers with
  | nil => cases hl
  | cons cur rest ih =>
    rcases List.mem_cons.mp hl with rfl | hl
    · rfl
    · exact ih hl

variable [DecidableEq Tag]

/-- The instantiation of the sublayers fails only where the layer feeds back and one of them is told not to.
Else each keeps whether it updates, and those feed back that are told to and those that come, over any path of
connections, behind one that is told to feed back or to update. -/
theorem SublayerInstantiation_closure {Name Layer : Type} (topo : ComposeTopology Tag Name Layer) (plainFBO : Bool)
    (SubPolicyPicker : Tag → FeedbackPolicy) :
    (SublayerInstantiation plainFBO (GetSublayerPolicy SubPolicyPicker topo.TopologicalOrdering) topo.InterConnects = none ↔
      plainFBO = true ∧ ∃ t ∈ topo.tags, (SubPolicyPicker t).IsFeedbackOutput = false) ∧
    ∀ res, SublayerInstantiation plainFBO (GetSublayerPolicy SubPolicyPicker topo.TopologicalOrdering)
        topo.InterConnects = some res →
      ∀ t ∈ topo.tags, updates res t = (SubPolicyPicker t).IsUpdate ∧
        (feedsBack res t = true ↔ (SubPolicyPicker t).IsFeedbackOutput = true ∨
          ∃ a ∈ topo.tags, Relation.TransGen (Feeds topo.InterConnects) a t ∧
            ((SubPolicyPicker a).IsFeedbackOutput = true ∨ (SubPolicyPicker a).IsUpdate = true)) := by
  have htags := GetSublayerPolicy_tags SubPolicyPicker topo.TopologicalOrdering
  have hpolicies : ∀ l ∈ GetSublayerPolicy SubPolicyPicker topo.TopologicalOrdering,
      l.Tag ∈ topo.tags ∧ l.IsFeedbackOutput = (SubPolicyPicker l.Tag).IsFeedbackOutput ∧
        l.IsUpdate = (SubPolicyPicker l.Tag).IsUpdate := by
    intro l hl
    refine ⟨?_, isFeedbackOutput_of_mem hl, isUpdate_of_mem hl⟩
    rw [ComposeTopology.tags, ← htags]
    exact List.mem_map_of_mem hl
  have hmem : ∀ t ∈ topo.tags, ∃ l ∈ GetSublayerPolicy SubPolicyPicker topo.TopologicalOrdering, l.Tag = t := by
    intro t ht
    rw [ComposeTopology.tags, ← htags] at ht
    exact List.mem_map.mp ht
  refine ⟨?_, fun res hres t ht => ?_⟩
  · have hcheck : SublayerInstantiation plainFBO (GetSublayerPolicy SubPolicyPicker topo.TopologicalOrdering)
        topo.InterConnects = none ↔
          FeedbackOutCheck plainFBO (GetSublayerPolicy SubPolicyPicker topo.TopologicalOrdering) = false := by
      unfold SublayerInstantiation
      split
      · next hcheck => simp [hcheck]
      · next hcheck => simpa using hcheck
    rw [hcheck, FeedbackOutCheck, Bool.or_eq_false_iff, Bool.not_eq_false', List.all_eq_false]
    refine and_congr Iff.rfl ?_
    constructor
    · rintro ⟨l, hl, hnot⟩
      obtain ⟨htag, hown, -⟩ := hpolicies l hl
      exact ⟨l.Tag, htag, by rw [← hown]; simpa using hnot⟩
    · rintro ⟨t, ht, hnot⟩
      obtain ⟨l, hl, rfl⟩ := hmem t ht
      obtain ⟨-, hown, -⟩ := hpolicies l hl
      exact ⟨l, hl, by rw [hown, hnot]; exact Bool.false_ne_true⟩
  · obtain ⟨l, hl, rfl, hupd, hfbo⟩ := policy_of_mem htags hres ht
    obtain ⟨-, hown, hown'⟩ := hpolicies l hl
    rw [hupd, hown', hfbo, hown]
    refine ⟨rfl, or_congr Iff.rfl ?_⟩
    constructor
    · rintro ⟨a, ha, hpath, hmarks⟩
      obtain ⟨hatag, hafbo, haupd⟩ := hpolicies a ha
      refine ⟨a.Tag, hatag, hpath, ?_⟩
      rwa [← hafbo, ← haupd]
    · rintro ⟨t, ht, hpath, hmarks⟩
      obtain ⟨a, ha, rfl⟩ := hmem t ht
      obtain ⟨-, hafbo, haupd⟩ := hpolicies a ha
      refine ⟨a, ha, hpath, ?_⟩
      rwa [Marks, hafbo, haupd]

variable (topo : ComposeTopology Tag Port LayerTemplate)

/-- The layer that the topology gives to a tag; other tags are never asked for. -/
def layerOf (tag : Tag) : LayerTemplate :=
  ((topo.SubLayers.find? (·.Tag = tag)).map SubLayer.Layer).getD .AddLayer

/-- The weights of all sublayers. -/
abbrev NetworkWeights : Type := Σ tag, (layerOf topo tag).Weights

abbrev NetworkObj (E : Type) : Type := ∀ tag, (layerOf topo tag).Obj E

/-- The composed layer with its sublayers instantiated; none where an assertion on the policies fails. -/
def network {E : Type} [Zero E] [One E] [Add E] [Sub E] [Mul E] [Neg E] [Div E] [Elementary E] (plainFBO : Bool)
    (SubPolicyPicker : Tag → FeedbackPolicy) : Option (LayerOps Port (Matrix E) (NetworkWeights topo) (NetworkObj topo E)) :=
  (SublayerInstantiation plainFBO (GetSublayerPolicy SubPolicyPicker topo.TopologicalOrdering) topo.InterConnects).map
    fun res => ComposeKernel topo fun tag => (layerOf topo tag).ops (feedsBack res tag) (updates res tag)

/-- What the network computes: the equations of its topology. -/
noncomputable def networkMeaning : Meaning Port (Matrix ℝ) (NetworkWeights topo) :=
  composeMeaning topo fun tag => (layerOf topo tag).meaning

/-- The weights that the network updates. -/
def networkUpdates (SubPolicyPicker : Tag → FeedbackPolicy) (i : NetworkWeights topo) : Bool :=
  decide (i.1 ∈ topo.tags) && (SubPolicyPicker i.1).IsUpdate

/-- The sublayers with their weights, before any step. -/
def networkCreate {E : Type} (θ : NetworkWeights topo → Matrix E) : NetworkObj topo E :=
  fun tag => (layerOf topo tag).create fun i => θ ⟨tag, i⟩

variable {topo}

/-- The policies that the sublayers of a network got. -/
theorem network_eq_some {E : Type} [Zero E] [One E] [Add E] [Sub E] [Mul E] [Neg E] [Div E] [Elementary E]
    {plainFBO : Bool} {SubPolicyPicker : Tag → FeedbackPolicy}
    {ops : LayerOps Port (Matrix E) (NetworkWeights topo) (NetworkObj topo E)}
    (hops : network topo plainFBO SubPolicyPicker = some ops) :
    ∃ res, SublayerInstantiation plainFBO (GetSublayerPolicy SubPolicyPicker topo.TopologicalOrdering)
        topo.InterConnects = some res ∧
      ops = ComposeKernel topo (fun tag => (layerOf topo tag).ops (feedsBack res tag) (updates res tag)) ∧
      networkUpdates topo SubPolicyPicker = fun i => updates res i.1 := by
  obtain ⟨res, hres, rfl⟩ := Option.map_eq_some_iff.mp hops
  refine ⟨res, hres, rfl, ?_⟩
  have htags := GetSublayerPolicy_tags SubPolicyPicker topo.TopologicalOrdering
  funext i
  by_cases hi : i.1 ∈ topo.tags
  · obtain ⟨l, hl, htag, hupd, -⟩ := policy_of_mem htags hres hi
    rw [networkUpdates, hupd, decide_eq_true hi, Bool.true_and, ← htag, isUpdate_of_mem hl]
  · rw [networkUpdates, updates_of_not_mem htags hres hi, decide_eq_false hi, Bool.false_and]

/-- What a network keeps: every sublayer keeps what its stacks are for. -/
def NetworkHolds (res : List (SublayerPolicies Tag LayerTemplate)) (objs : NetworkObj topo ℝ)
    (θ : NetworkWeights topo → Matrix ℝ) (xs : List (VarTypeDict Port (Matrix ℝ)))
    (w : (NetworkWeights topo → Nat → Nat → ℝ) → ℝ) : Prop :=
  HoldsAll topo (fun tag => (layerOf topo tag).meaning)
    (fun tag => (layerOf topo tag).Holds (feedsBack res tag) (updates res tag)) objs θ xs w

theorem networkHolds_create (res : List (SublayerPolicies Tag LayerTemplate)) (θ : NetworkWeights topo → Matrix ℝ) :
    NetworkHolds res (networkCreate topo θ) θ [] fun _ => 0 := by
  refine ⟨[], fun _ _ => 0, rfl, List.forall_mem_nil _, fun t _ => ?_, ?_⟩
  · exact (layerOf topo t).holds_create _ _ _
  · funext p
    simp

/-- A network whose inputs come from one place each gives its gradients. -/
theorem network_lawful (hports : NoPortTwice topo) {plainFBO : Bool} {SubPolicyPicker : Tag → FeedbackPolicy}
    {ops : LayerOps Port (Matrix ℝ) (NetworkWeights topo) (NetworkObj topo ℝ)}
    (hops : network topo plainFBO SubPolicyPicker = some ops) :
    ∃ res, Lawful ops (networkMeaning topo) plainFBO (networkUpdates topo SubPolicyPicker) (NetworkHolds res) := by
  obtain ⟨res, hres, rfl, hupd⟩ := network_eq_some hops
  refine ⟨res, ?_⟩
  rw [hupd]
  exact ComposeKernel_lawful topo hports plainFBO _ res
    (GetSublayerPolicy_tags SubPolicyPicker topo.TopologicalOrdering) hres
    (fun tag fbo upd => (layerOf topo tag).ops fbo upd) (fun tag => (layerOf topo tag).meaning)
    (fun tag fbo upd => (layerOf topo tag).Holds fbo upd) fun tag fbo upd => (layerOf topo tag).lawful_elementary fbo upd

/-- A network from its creation on, over any run in which no backward step is without its forward step: every
forward step solves the equations of the topology and every backward step gives the gradients of the last
forward step that is open. What is collected for the weights is the sum of all of them. `NeutralInvariant` does
not throw when nothing is open, and no backward step throws when something is. -/
theorem network_training (topo : ComposeTopology Tag Port LayerTemplate) (hports : NoPortTwice topo) (plainFBO : Bool)
    (SubPolicyPicker : Tag → FeedbackPolicy) (ops : LayerOps Port (Matrix ℝ) (NetworkWeights topo) (NetworkObj topo ℝ))
    (hops : network topo plainFBO SubPolicyPicker = some ops) (θ : NetworkWeights topo → Matrix ℝ)
    (events : List (Event Port (Matrix ℝ))) (objs : NetworkObj topo ℝ) (hsteps : Steps ops (networkCreate topo θ) events objs)
    (n : Nat) (hopen : stillOpen 0 events = some n) :
    ∃ (xs : List (VarTypeDict Port (Matrix ℝ))) (δ : (NetworkWeights topo → Nat → Nat → ℝ) → ℝ), xs.length = n ∧
      Answers (networkMeaning topo) plainFBO (networkUpdates topo SubPolicyPicker) θ [] events xs δ ∧
      (∀ p, ((ops.GradCollect objs).1.map fun g => Matrix.inner g.2 (p g.1)).sum = δ p) ∧
      (n = 0 → ops.NeutralInvariant (ops.GradCollect objs).2 = .ok ()) ∧
      (0 < n → ∀ grad what, ops.FeedBackward grad objs ≠ .error (.runtime_error what)) := by
  obtain ⟨res, hlaw⟩ := network_lawful hports hops
  obtain ⟨xs, δ, hans, hlast, hlen⟩ := hlaw.answers hsteps (networkHolds_create res θ) hopen
  obtain ⟨hempty, hgrads⟩ := hlaw.collect hlast
  refine ⟨xs, δ, hlen, hans, fun p => ?_, fun hn => ?_, fun hn grad what => ?_⟩
  · have hsum := hgrads p
    rw [zero_add] at hsum
    exact hsum.symm
  · have hnil : xs = [] := List.eq_nil_of_length_eq_zero (hlen.trans hn)
    subst hnil
    exact hlaw.neutral hlast
  · cases xs with
    | nil => exact absurd hlen.symm (Nat.ne_of_gt hn)
    | cons x xs => exact hlaw.noThrow hlast

end

theorem noPortTwice_LinearLayer : NoPortTwice LinearLayer := by
  unfold NoPortTwice
  decide

theorem noPortTwice_SingleLayer (HasBias : Bool) (Action : ActionTypeCate) : NoPortTwice (SingleLayer HasBias Action) := by
  unfold NoPortTwice
  cases HasBias <;> cases Action <;> decide

def alwaysUpdate : FeedbackPolicy := ⟨true, true⟩

/-- A matrix with one element. -/
def cell {E : Type} (v : E) : Matrix E := ⟨1, 1, fun _ _ => v⟩

/-- A forward and a backward step of a network with one input and one output, with the weights 2, have the
gradients `δ`. -/
def TrainedOnce {Tag : Type} [DecidableEq Tag] (topo : ComposeTopology Tag Port LayerTemplate)
    (δ : (NetworkWeights topo → Nat → Nat → ℝ) → ℝ) : Prop :=
  ∃ ops : LayerOps Port (Matrix ℝ) (NetworkWeights topo) (NetworkObj topo ℝ),
    network topo true (fun _ => alwaysUpdate) = some ops ∧ ∃ y gin : VarTypeDict Port (Matrix ℝ),
      Answers (networkMeaning topo) true (networkUpdates topo fun _ => alwaysUpdate) (fun _ => cell 2) []
        [.FeedForward (output (cell 3)) y, .FeedBackward (output (cell 1)) gin] [] δ

theorem network_training_composed :
    TrainedOnce LinearLayer (fun p => 3 * p ⟨.WeightSublayer, ()⟩ 0 0 + p ⟨.BiasSublayer, ()⟩ 0 0) ∧
      TrainedOnce (SingleLayer true .Sigmoid) (fun p =>
        SigmoidDerivative 1 (Sigmoid 8) * (3 * p ⟨.WeightSublayer, ()⟩ 0 0 + p ⟨.BiasSublayer, ()⟩ 0 0)) := by
  constructor
  · have hops : ∃ ops : LayerOps Port (Matrix ℝ) _ _, network LinearLayer true (fun _ => alwaysUpdate) = some ops ∧
      ∃ y gin objs, Steps ops (networkCreate LinearLayer fun _ => (cell 2 : Matrix ℝ))
        [.FeedForward (output (cell 3)) y, .FeedBackward (output (cell 1)) gin] objs ∧
        (ops.GradCollect objs).1 =
          [(⟨.WeightSublayer, ()⟩, cell (0 + 3 * 1)), (⟨.BiasSublayer, ()⟩, cell 1)] :=
      ⟨_, rfl, _, _, _, .forward rfl (.backward rfl (.nil _)), rfl⟩
    obtain ⟨ops, hops, y, gin, objs, hsteps, hcollected⟩ := hops
    obtain ⟨xs, δ, hlen, hans, hgrads, -⟩ := network_training LinearLayer noPortTwice_LinearLayer true
      (fun _ => alwaysUpdate) ops hops (fun _ => cell 2) _ objs hsteps 0 rfl
    obtain rfl := List.eq_nil_of_length_eq_zero hlen
    obtain rfl : δ = fun p => 3 * p ⟨.WeightSublayer, ()⟩ 0 0 + p ⟨.BiasSublayer, ()⟩ 0 0 := by
      funext p
      rw [← hgrads, hcollected]
      simp [Matrix.inner, cell]
    exact ⟨ops, hops, y, gin, hans⟩
  · have hops : ∃ ops : LayerOps Port (Matrix ℝ) _ _,
      network (SingleLayer true .Sigmoid) true (fun _ => alwaysUpdate) = some ops ∧
      ∃ y gin objs, Steps ops (networkCreate (SingleLayer true .Sigmoid) fun _ => (cell 2 : Matrix ℝ))
        [.FeedForward (output (cell 3)) y, .FeedBackward (output (cell 1)) gin] objs ∧
        (ops.GradCollect objs).1 =
          [(⟨.WeightSublayer, ()⟩, cell (0 + 3 * SigmoidDerivative 1 (Sigmoid (0 + 3 * 2 + 2)))),
            (⟨.BiasSublayer, ()⟩, cell (SigmoidDerivative 1 (Sigmoid (0 + 3 * 2 + 2))))] :=
      ⟨_, rfl, _, _, _, .forward rfl (.backward rfl (.nil _)), rfl⟩
    obtain ⟨ops, hops, y, gin, objs, hsteps, hcollected⟩ := hops
    obtain ⟨xs, δ, hlen, hans, hgrads, -⟩ := network_training (SingleLayer true .Sigmoid)
      (noPortTwice_SingleLayer true .Sigmoid) true (fun _ => alwaysUpdate) ops hops (fun _ => cell 2) _ objs hsteps 0 rfl
    obtain rfl := List.eq_nil_of_length_eq_zero hlen
    have hsum : (0 : ℝ) + 3 * 2 + 2 = 8 := by norm_num
    obtain rfl : δ = fun p =>
        SigmoidDerivative 1 (Sigmoid 8) * (3 * p ⟨.WeightSublayer, ()⟩ 0 0 + p ⟨.BiasSublayer, ()⟩ 0 0) := by
      funext p
      rw [← hgrads, hcollected, hsum]
      simp [Matrix.inner, cell]
      ring
    exact ⟨ops, hops, y, gin, hans⟩

end Perception.MetaNN
