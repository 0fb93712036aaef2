import Perception.MetaNN.FeedbackOut
import Perception.MetaNN.ElementaryLaws

/-!
# Networks

The composed layers of the library with the policies that their sublayers get.
-/
namespace Perception.MetaNN

set_option autoImplicit false

open Perception.Lib.Precedence

section

variable {Tag Name Layer V D : Type} [DecidableEq Tag] [DecidableEq Name]

/-- The policy that a sublayer is instantiated with. -/
def feedsBack (res : List (SublayerPolicies Tag Layer)) (tag : Tag) : Bool :=
  ((res.find? (·.Tag = tag)).map SublayerPolicies.IsFeedbackOutput).getD false

def updates (res : List (SublayerPolicies Tag Layer)) (tag : Tag) : Bool :=
  ((res.find? (·.Tag = tag)).map SublayerPolicies.IsUpdate).getD false

theorem find?_of_mem {res : List (SublayerPolicies Tag Layer)} (hnodup : (res.map SublayerPolicies.Tag).Nodup)
    {l : SublayerPolicies Tag Layer} (hl : l ∈ res) : res.find? (·.Tag = l.Tag) = some l := by
  induction res with
  | nil => cases hl
  | cons cur rest ih =>
    obtain ⟨hnot, hrest⟩ := List.nodup_cons.mp hnodup
    rcases List.mem_cons.mp hl with rfl | hl
    · simp
    · have hne : cur.Tag ≠ l.Tag := fun heq => hnot (heq ▸ List.mem_map_of_mem hl)
      rw [List.find?_cons_of_neg (by simpa using hne), ih hrest hl]

section

variable {topo : ComposeTopology Tag Name Layer} {plainFBO : Bool} {insts res : List (SublayerPolicies Tag Layer)}

omit [DecidableEq Name] in
/-- What the policy of a tag is and was. -/
theorem policy_of_mem (htags : insts.map SublayerPolicies.Tag = topo.tags)
    (hres : SublayerInstantiation plainFBO insts topo.InterConnects = some res) {t : Tag} (ht : t ∈ topo.tags) :
    ∃ l ∈ insts, l.Tag = t ∧ updates res t = l.IsUpdate ∧ (feedsBack res t = true ↔ l.IsFeedbackOutput = true ∨
      ∃ a ∈ insts, Relation.TransGen (Feeds topo.InterConnects) a.Tag t ∧ Marks a) := by
  have hspec := SublayerInstantiation_spec topo plainFBO insts res htags hres
  have hnodup : (res.map SublayerPolicies.Tag).Nodup := by
    rw [map_tag_eq hspec fun _ _ h => h.1, htags]
    exact topo.nodup_tags
  rw [← htags] at ht
  obtain ⟨l, hl, rfl⟩ := List.mem_map.mp ht
  obtain ⟨l', hl', htag, -, hupd, hfbo⟩ := exists_after hspec hl
  have hfind := find?_of_mem hnodup hl'
  rw [htag] at hfind
  refine ⟨l, hl, rfl, ?_, ?_⟩
  · rw [updates, hfind]
    exact hupd
  · rw [feedsBack, hfind]
    exact hfbo

omit [DecidableEq Name] in
theorem updates_of_not_mem (htags : insts.map SublayerPolicies.Tag = topo.tags)
    (hres : SublayerInstantiation plainFBO insts topo.InterConnects = some res) {t : Tag} (ht : t ∉ topo.tags) :
    updates res t = false := by
  have hspec := SublayerInstantiation_spec topo plainFBO insts res htags hres
  rw [← htags, ← map_tag_eq hspec fun _ _ h => h.1] at ht
  have hfind : res.find? (·.Tag = t) = none := by
    rw [List.find?_eq_none]
    intro l hl htag
    exact ht (of_decide_eq_true htag ▸ List.mem_map_of_mem hl)
  rw [updates, hfind]
  rfl

omit [DecidableEq Name] in
/-- The instantiation makes the policies agree. -/
theorem policiesAgree {W : Tag → Type} (htags : insts.map SublayerPolicies.Tag = topo.tags)
    (hres : SublayerInstantiation plainFBO insts topo.InterConnects = some res) :
    PoliciesAgree topo plainFBO (feedsBack res) (fun t (_ : W t) => updates res t) := by
  refine ⟨fun hplain t ht => ?_, fun a b hfeeds hmarks => ?_⟩
  · obtain ⟨l, hl, rfl, -, hfbo⟩ := policy_of_mem htags hres ht
    refine hfbo.mpr (.inl ?_)
    unfold SublayerInstantiation at hres
    split at hres
    · next hcheck =>
      rw [hplain] at hcheck
      have hall : ∀ l ∈ insts, l.IsFeedbackOutput = true := by simpa [FeedbackOutCheck] using hcheck
      exact hall l hl
    · cases hres
  · obtain ⟨ha, hb⟩ := mem_tags_of_feeds hfeeds
    obtain ⟨la, hla, rfl, hupda, hfboa⟩ := policy_of_mem htags hres ha
    obtain ⟨lb, hlb, rfl, -, hfbob⟩ := policy_of_mem htags hres hb
    refine hfbob.mpr (.inr ?_)
    rcases hmarks with hfbo | ⟨-, hupd⟩
    · rcases hfboa.mp hfbo with hown | ⟨c, hc, hpath, hmarks⟩
      · exact ⟨la, hla, .single hfeeds, .inl hown⟩
      · exact ⟨c, hc, hpath.tail hfeeds, hmarks⟩
    · rw [hupda] at hupd
      exact ⟨la, hla, .single hfeeds, .inr hupd⟩

end

variable [Fintype Name] [Plus V] [Zero D] [Moving V D]

/-- A composed layer of lawful layers, with the policies that its sublayers are instantiated with, is
lawful. -/
theorem ComposeKernel_lawful {W S : Tag → Type} (topo : ComposeTopology Tag Name Layer) (hports : NoPortTwice topo)
    (plainFBO : Bool) (insts res : List (SublayerPolicies Tag Layer)) (htags : insts.map SublayerPolicies.Tag = topo.tags)
    (hres : SublayerInstantiation plainFBO insts topo.InterConnects = some res)
    (sublayer : ∀ tag, Bool → Bool → LayerOps Name V (W tag) (S tag)) (M : ∀ tag, Meaning Name V (W tag))
    (Holds : ∀ tag, Bool → Bool → S tag → (W tag → V) → List (VarTypeDict Name V) → ((W tag → D) → ℝ) → Prop)
    (hsub : ∀ tag fbo upd, Lawful (sublayer tag fbo upd) (M tag) fbo (fun _ => upd) (Holds tag fbo upd)) :
    Lawful (ComposeKernel topo fun tag => sublayer tag (feedsBack res tag) (updates res tag)) (composeMeaning topo M)
      plainFBO (fun i => updates res i.1)
      (HoldsAll topo M fun tag => Holds tag (feedsBack res tag) (updates res tag)) :=
  lawful_ComposeKernel hports (policiesAgree htags hres) fun tag _ => hsub tag (feedsBack res tag) (updates res tag)

end

/-- The layers that a composed layer names. -/
inductive LayerTemplate where
  | WeightLayer
  | BiasLayer
  | AddLayer
  | ElementMulLayer
  | InterpolateLayer
  | SigmoidLayer
  | TanhLayer
  deriving DecidableEq

namespace LayerTemplate

/-- The weights of a layer. -/
def Weights : LayerTemplate → Type
  | WeightLayer => Unit
  | BiasLayer => Unit
  | AddLayer => Empty
  | ElementMulLayer => Empty
  | InterpolateLayer => Empty
  | SigmoidLayer => Empty
  | TanhLayer => Empty

/-- The members of a layer. -/
def Obj (E : Type) : LayerTemplate → Type
  | WeightLayer => WeightObj E
  | BiasLayer => BiasObj E
  | AddLayer => Unit
  | ElementMulLayer => ElementMulObj E
  | InterpolateLayer => InterpolateObj E
  | SigmoidLayer => List (Matrix E)
  | TanhLayer => List (Matrix E)

def ops {E : Type} [Zero E] [One E] [Add E] [Sub E] [Mul E] [Neg E] [Div E] [Elementary E] (fbo upd : Bool) :
    (layer : LayerTemplate) → LayerOps Port (Matrix E) layer.Weights (layer.Obj E)
  | WeightLayer => MetaNN.WeightLayer fbo upd
  | BiasLayer => MetaNN.BiasLayer fbo upd
  | AddLayer => MetaNN.AddLayer fbo
  | ElementMulLayer => MetaNN.ElementMulLayer fbo
  | InterpolateLayer => MetaNN.InterpolateLayer fbo
  | SigmoidLayer => MetaNN.SigmoidLayer fbo
  | TanhLayer => MetaNN.TanhLayer fbo

noncomputable def meaning : (layer : LayerTemplate) → Meaning Port (Matrix ℝ) layer.Weights
  | WeightLayer => weightMeaning
  | BiasLayer => biasMeaning
  | AddLayer => binaryMeaning .AddLayerIn1 .AddLayerIn2 Plus.plus
  | ElementMulLayer => binaryMeaning .ElementMulLayerIn1 .ElementMulLayerIn2 Matrix.ElementMul
  | InterpolateLayer => interpolateMeaning
  | SigmoidLayer => actionMeaning Sigmoid
  | TanhLayer => actionMeaning Real.tanh

/-- What the members of a layer stand for. -/
def Holds (fbo upd : Bool) : (layer : LayerTemplate) → layer.Obj ℝ → (layer.Weights → Matrix ℝ) →
    List (VarTypeDict Port (Matrix ℝ)) → ((layer.Weights → Nat → Nat → ℝ) → ℝ) → Prop
  | WeightLayer => HoldsWeight upd
  | BiasLayer => HoldsBias upd
  | AddLayer => fun _ _ _ w => True ∧ w = fun _ => 0
  | ElementMulLayer => fun obj _ xs w => KeepsFactors fbo obj xs ∧ w = fun _ => 0
  | InterpolateLayer => fun obj _ xs w => KeepsInterpolation fbo obj xs ∧ w = fun _ => 0
  | SigmoidLayer => fun obj _ xs w => KeepsValues Sigmoid fbo obj xs ∧ w = fun _ => 0
  | TanhLayer => fun obj _ xs w => KeepsValues Real.tanh fbo obj xs ∧ w = fun _ => 0

/-- Every elementary layer gives its gradients, under every policy. -/
theorem lawful_elementary (layer : LayerTemplate) (fbo upd : Bool) :
    Lawful (layer.ops fbo upd) layer.meaning fbo (fun _ => upd) (layer.Holds fbo upd) := by
  cases layer with
  | WeightLayer => exact lawful_WeightLayer fbo upd
  | BiasLayer => exact lawful_BiasLayer fbo upd
  | AddLayer => exact lawful_AddLayer fbo _
  | ElementMulLayer => exact lawful_ElementMulLayer fbo _
  | InterpolateLayer => exact lawful_InterpolateLayer fbo _
  | SigmoidLayer => exact lawful_SigmoidLayer fbo _
  | TanhLayer => exact lawful_TanhLayer fbo _

/-- A layer with its weights, before any step. -/
def create {E : Type} : (layer : LayerTemplate) → (layer.Weights → Matrix E) → layer.Obj E
  | WeightLayer, θ => ⟨θ (), [], []⟩
  | BiasLayer, θ => ⟨θ (), []⟩
  | AddLayer, _ => ()
  | ElementMulLayer, _ => ⟨[], []⟩
  | InterpolateLayer, _ => ⟨[], [], []⟩
  | SigmoidLayer, _ => ([] : List (Matrix E))
  | TanhLayer, _ => ([] : List (Matrix E))

theorem holds_create (layer : LayerTemplate) (fbo upd : Bool) (θ : layer.Weights → Matrix ℝ) :
    layer.Holds fbo upd (layer.create θ) θ [] fun _ => 0 := by
  cases layer with
  | WeightLayer => exact ⟨rfl, fun _ => rfl, fun _ => rfl, rfl⟩
  | BiasLayer => exact ⟨rfl, fun _ => rfl, rfl⟩
  | AddLayer => exact ⟨trivial, rfl⟩
  | ElementMulLayer => exact ⟨fun _ => ⟨rfl, rfl⟩, rfl⟩
  | InterpolateLayer => exact ⟨fun _ => ⟨rfl, rfl, rfl⟩, rfl⟩
  | SigmoidLayer => exact ⟨fun _ => rfl, rfl⟩
  | TanhLayer => exact ⟨fun _ => rfl, rfl⟩

end LayerTemplate

end Perception.MetaNN
