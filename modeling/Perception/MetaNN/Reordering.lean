import Mathlib.Data.List.Perm.Lattice
import Perception.MetaNN.Equations

/-!
# The order of the parameters

Sublayers and connections can be written in any order: the topology compiles as before, and a forward pass
gives the same.
-/
namespace Perception.MetaNN

set_option autoImplicit false

open Perception.Lib.Precedence Perception.Lib.Wiring

variable {Tag Name Layer : Type}

namespace ComposeKernelInfo

def subLayer? : ComposeKernelInfo Tag Name Layer → Option (SubLayer Tag Layer)
  | .subLayer l => some l
  | _ => none

def internalConnect? : ComposeKernelInfo Tag Name Layer → Option (InternalConnect Tag Name)
  | .internalConnect c => some c
  | _ => none

def inConnect? : ComposeKernelInfo Tag Name Layer → Option (InConnect Tag Name)
  | .inConnect c => some c
  | _ => none

def outConnect? : ComposeKernelInfo Tag Name Layer → Option (OutConnect Tag Name)
  | .outConnect c => some c
  | _ => none

end ComposeKernelInfo

open ComposeKernelInfo in
theorem SeparateParameters_eq (params : List (ComposeKernelInfo Tag Name Layer)) (res : SeparateRes Tag Name Layer) :
    SeparateParameters_ res params = ⟨res.SubLayers ++ params.filterMap subLayer?,
      res.InterConnects ++ params.filterMap internalConnect?, res.InputConnects ++ params.filterMap inConnect?,
      res.OutputConnects ++ params.filterMap outConnect?⟩ := by
  induction params generalizing res with
  | nil => simp [SeparateParameters_]
  | cons param rest ih =>
    cases param <;>
      simp [SeparateParameters_, ih, List.filterMap_cons, subLayer?, internalConnect?, inConnect?, outConnect?]

/-- The parameters of two topologies, each list in some order. -/
structure SameParameters (topo topo' : SeparateRes Tag Name Layer) : Prop where
  subLayers : topo.SubLayers.Perm topo'.SubLayers
  interConnects : topo.InterConnects.Perm topo'.InterConnects
  inputConnects : topo.InputConnects.Perm topo'.InputConnects
  outputConnects : topo.OutputConnects.Perm topo'.OutputConnects

theorem sameParameters_of_perm {params params' : List (ComposeKernelInfo Tag Name Layer)} (hperm : params.Perm params') :
    SameParameters (SeparateParameters_ ⟨[], [], [], []⟩ params) (SeparateParameters_ ⟨[], [], [], []⟩ params') := by
  rw [SeparateParameters_eq, SeparateParameters_eq]
  exact ⟨hperm.filterMap _, hperm.filterMap _, hperm.filterMap _, hperm.filterMap _⟩

theorem Feeds_perm {inters inters' : List (InternalConnect Tag Name)} (hperm : inters.Perm inters') :
    Feeds inters' = Feeds inters := by
  funext a b
  simp only [Feeds, hperm.mem_iff]

theorem tagExist_perm {inters inters' : List (InternalConnect Tag Name)} (hperm : inters.Perm inters') {tag : Tag} :
    TagExistInLayerComps tag inters ↔ TagExistInLayerComps tag inters' :=
  or_congr (hperm.map InternalConnect.OutTag).mem_iff (hperm.map InternalConnect.InTag).mem_iff

section

/-- The assertions do not see the order. -/
theorem Asserts.perm {topo topo' : SeparateRes Tag Name Layer} (h : Asserts topo) (hsame : SameParameters topo topo') :
    Asserts topo' where
  sublayers := fun hnil => h.sublayers (List.perm_nil.mp (hnil ▸ hsame.subLayers))
  isUnique := hsame.subLayers.pairwise h.isUnique fun hne => hne.symm
  noSelfCycle := fun c hc => h.noSelfCycle c (hsame.interConnects.mem_iff.mpr hc)
  uniqueInternal := hsame.interConnects.pairwise h.uniqueInternal fun hne => hne.imp Ne.symm Ne.symm
  uniqueInput := hsame.inputConnects.pairwise h.uniqueInput fun hne => hne.imp Ne.symm Ne.symm
  uniqueOutput := hsame.outputConnects.pairwise h.uniqueOutput fun hne => hne.symm
  internalTag := by
    intro c hc
    have htags := h.internalTag c (hsame.interConnects.mem_iff.mpr hc)
    rwa [(hsame.subLayers.map SubLayer.Tag).mem_iff, (hsame.subLayers.map SubLayer.Tag).mem_iff] at htags
  inputTag := by
    intro c hc
    exact (hsame.subLayers.map SubLayer.Tag).mem_iff.mp (h.inputTag c (hsame.inputConnects.mem_iff.mpr hc))
  outputTag := by
    intro c hc
    exact (hsame.subLayers.map SubLayer.Tag).mem_iff.mp (h.outputTag c (hsame.outputConnects.mem_iff.mpr hc))
  otherArrays := by
    intro l hl
    have hused := h.otherArrays l (hsame.subLayers.mem_iff.mpr hl)
    rwa [tagExist_perm hsame.interConnects, (hsame.inputConnects.map InConnect.InLayerTag).mem_iff,
      (hsame.outputConnects.map OutConnect.OutLayerTag).mem_iff] at hused
  usefulInternal := by
    intro c hc
    exact (h.usefulInternal c (hsame.interConnects.mem_iff.mpr hc)).imp
      (hsame.interConnects.map InternalConnect.OutTag).mem_iff.mp
      (hsame.outputConnects.map OutConnect.OutLayerTag).mem_iff.mp
  usefulInput := by
    intro c hc
    exact (h.usefulInput c (hsame.inputConnects.mem_iff.mpr hc)).imp
      (hsame.interConnects.map InternalConnect.OutTag).mem_iff.mp
      (hsame.outputConnects.map OutConnect.OutLayerTag).mem_iff.mp

variable [DecidableEq Tag]

/-- A topology compiles with its parameters in any order. -/
theorem ComposeTopology.exists_perm (topo : ComposeTopology Tag Name Layer) {res : SeparateRes Tag Name Layer}
    (hsame : SameParameters topo.toSeparateRes res) :
    ∃ topo' : ComposeTopology Tag Name Layer, topo'.toSeparateRes = res := by
  have hacyclic : Acyclic (Feeds res.InterConnects) := by
    rw [Feeds_perm hsame.interConnects]
    exact exists_TopologicalOrdering_iff.mp ⟨_, topo.ordering⟩
  obtain ⟨order, horder⟩ : ∃ order, TopologicalOrdering_ res.SubLayers res.InterConnects = some order :=
    exists_TopologicalOrdering_iff.mpr hacyclic
  exact ⟨⟨res, topo.asserts.perm hsame, order, horder⟩, rfl⟩

variable [DecidableEq Name] {V : Type} [Plus V] {topo topo' : ComposeTopology Tag Name Layer}

omit [Plus V] in
theorem portIn_perm (hsame : SameParameters topo.toSeparateRes topo'.toSeparateRes) (input : VarTypeDict Name V)
    (res : Tag → VarTypeDict Name V) (tag : Tag) : portIn topo' input res tag = portIn topo input res tag := by
  unfold portIn
  rw [brought_perm (topo.pairwise_input tag) hsame.inputConnects,
    brought_perm (topo.pairwise_internal tag) hsame.interConnects]

omit [Plus V] in
theorem portOut_perm (hsame : SameParameters topo.toSeparateRes topo'.toSeparateRes) (res : Tag → VarTypeDict Name V) :
    portOut topo' res = portOut topo res :=
  brought_perm (topo.pairwise_output _) hsame.outputConnects

omit [DecidableEq Name] in
theorem mem_tags_perm (hsame : SameParameters topo.toSeparateRes topo'.toSeparateRes) {t : Tag} :
    t ∈ topo'.tags ↔ t ∈ topo.tags := by
  rw [topo'.mem_tags, topo.mem_tags, (hsame.subLayers.map SubLayer.Tag).mem_iff]

/-- The parameters of a topology can be written in any order: it compiles, and a composed layer goes forward
in the same cases, to the same outputs and the same objects. -/
theorem ComposeTopology_reorder (topo : ComposeTopology Tag Name Layer)
    (params params' : List (ComposeKernelInfo Tag Name Layer))
    (hparams : topo.toSeparateRes = SeparateParameters_ ⟨[], [], [], []⟩ params) (hperm : params.Perm params') :
    ∃ topo' : ComposeTopology Tag Name Layer, topo'.toSeparateRes = SeparateParameters_ ⟨[], [], [], []⟩ params' ∧
      ∀ {W S : Tag → Type} (sublayers : ∀ tag, LayerOps Name V (W tag) (S tag)) (p_in : VarTypeDict Name V)
        (objs : ∀ tag, S tag) (out : VarTypeDict Name V) (objs' : ∀ tag, S tag),
        (ComposeKernel topo' sublayers).FeedForward p_in objs = .ok (out, objs') ↔
          (ComposeKernel topo sublayers).FeedForward p_in objs = .ok (out, objs') := by
  have hsame := sameParameters_of_perm hperm
  rw [← hparams] at hsame
  obtain ⟨topo', htopo'⟩ := topo.exists_perm hsame
  refine ⟨topo', htopo', ?_⟩
  rw [← htopo'] at hsame
  intro W S sublayers p_in objs out objs'
  rw [FeedForward_iff, FeedForward_iff]
  simp only [portIn_perm hsame, portOut_perm hsame, mem_tags_perm hsame]

/-- A layer that feeds another. -/
def chainParameters : List (ComposeKernelInfo Nat String Unit) :=
  [.subLayer ⟨0, ()⟩, .subLayer ⟨1, ()⟩, .inConnect ⟨"x", 0, "x"⟩, .internalConnect ⟨0, "y", 1, "x"⟩,
   .outConnect ⟨1, "y", "y"⟩]

def chain : ComposeTopology Nat String Unit where
  toSeparateRes := SeparateParameters_ ⟨[], [], [], []⟩ chainParameters
  asserts := ⟨by decide, by decide, by decide, by decide, by decide, by decide, by decide, by decide, by decide, by decide,
    by decide, by decide⟩
  TopologicalOrdering := [⟨0, ()⟩, ⟨1, ()⟩]
  ordering := by
    rw [TopologicalOrdering_eq_bounded]
    decide

theorem ComposeTopology_reorder_chain : ∃ topo' : ComposeTopology Nat String Unit,
    topo'.toSeparateRes = SeparateParameters_ ⟨[], [], [], []⟩ chainParameters.reverse := by
  have : Plus Unit := ⟨fun _ _ => some ()⟩
  obtain ⟨topo', htopo', -⟩ := ComposeTopology_reorder (V := Unit) chain chainParameters chainParameters.reverse rfl
    (List.reverse_perm _).symm
  exact ⟨topo', htopo'⟩

end

end Perception.MetaNN
