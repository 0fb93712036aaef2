import Mathlib.Logic.Function.Basic
import Perception.MetaNN.Topology

/-!
# Composed layers

A layer made of sublayers passes its input forward through them in their order, and gradients back
through them in the opposite one.
-/
namespace Perception.MetaNN

set_option autoImplicit false

open Perception.Lib.Precedence

variable {Tag Name Layer V : Type}

/-- What stops a step. -/
inductive Fault where
  | runtime_error (what : String)
  /-- An assert fails. -/
  | assertion
  /-- The template cannot be instantiated. -/
  | illFormed
  deriving DecidableEq

/-- Values under names; none is a `NullParameter`. -/
abbrev VarTypeDict (Name V : Type) := Name → Option V

namespace VarTypeDict

variable [DecidableEq Name]

def Create : VarTypeDict Name V := fun _ => none

def Set (d : VarTypeDict Name V) (name : Name) (val : Option V) : VarTypeDict Name V := Function.update d name val

/-- Every connection that is selected fills a value in under its key. -/
def fill {C : Type} (combine : Option V → Option V → Except Fault (Option V)) (sel : C → Prop) [DecidablePred sel]
    (key : C → Name) (val : C → Except Fault (Option V)) :
    List C → VarTypeDict Name V → Except Fault (VarTypeDict Name V)
  | [], res => .ok res
  | c :: rest, res =>
    if sel c then do
      let tmp ← val c
      let cur ← combine (res (key c)) tmp
      fill combine sel key val rest (res.Set (key c) cur)
    else fill combine sel key val rest res

end VarTypeDict

/-- `operator+` of two values; none is an assert that fails. -/
class Plus (V : Type) where
  plus : V → V → Option V

/-- A later value replaces an earlier one. -/
def overwrite (_ tmp : Option V) : Except Fault (Option V) := .ok tmp

/-- A later value is added to an earlier one. -/
def accumulate [Plus V] (oriParam tmp : Option V) : Except Fault (Option V) :=
  match oriParam, tmp with
  | none, tmp => .ok tmp
  | some oriParam, some tmp =>
    match Plus.plus oriParam tmp with
    | some res => .ok (some res)
    | none => .error .assertion
  | some _, none => .error .illFormed

/-- What a layer does with its object. A gradient is collected with the weight that it belongs to. -/
structure LayerOps (Name V W S : Type) where
  FeedForward : VarTypeDict Name V → S → Except Fault (VarTypeDict Name V × S)
  FeedBackward : VarTypeDict Name V → S → Except Fault (VarTypeDict Name V × S)
  GradCollect : S → List (W × V) × S
  NeutralInvariant : S → Except Fault Unit

variable [DecidableEq Tag] [DecidableEq Name]

/-- The results of the sublayers so far; none is a `NullParameter`. -/
abbrev InternalResult (Tag Name V : Type) := Tag → Option (VarTypeDict Name V)

/-- `Get` of a result. -/
def InternalResult.Get (internal : InternalResult Tag Name V) (tag : Tag) (name : Name) : Except Fault (Option V) :=
  match internal tag with
  | some layer => .ok (layer name)
  | none => .error .illFormed

def InputFromInConnect (AimTag : Tag) (input : VarTypeDict Name V) (ins : List (InConnect Tag Name))
    (res : VarTypeDict Name V) : Except Fault (VarTypeDict Name V) :=
  VarTypeDict.fill overwrite (·.InLayerTag = AimTag) InConnect.InLayerName (fun c => .ok (input c.InName)) ins res

def InputFromInternalConnect (AimTag : Tag) (internal : InternalResult Tag Name V)
    (inters : List (InternalConnect Tag Name)) (res : VarTypeDict Name V) : Except Fault (VarTypeDict Name V) :=
  VarTypeDict.fill overwrite (·.InTag = AimTag) InternalConnect.InName (fun c => internal.Get c.OutTag c.OutName) inters res

def FillOutput (AimTag : Tag) (curLayerRes : VarTypeDict Name V) (outs : List (OutConnect Tag Name))
    (output : VarTypeDict Name V) : Except Fault (VarTypeDict Name V) :=
  VarTypeDict.fill overwrite (·.OutLayerTag = AimTag) OutConnect.OutName (fun c => .ok (curLayerRes c.OutLayerName)) outs
    output

section

variable {W S : Tag → Type} (topo : ComposeTopology Tag Name Layer) (sublayers : ∀ tag, LayerOps Name V (W tag) (S tag))

def FeedForwardFun (input : VarTypeDict Name V) : List Tag → InternalResult Tag Name V → VarTypeDict Name V →
    (∀ tag, S tag) → Except Fault (VarTypeDict Name V × ∀ tag, S tag)
  | [], _, output, objs => .ok (output, objs)
  | AimTag :: rest, internal, output, objs => do
    let input1 ← InputFromInConnect AimTag input topo.InputConnects VarTypeDict.Create
    let input2 ← InputFromInternalConnect AimTag internal topo.InterConnects input1
    let (res, obj) ← (sublayers AimTag).FeedForward input2 (objs AimTag)
    let new_output ← FillOutput AimTag res topo.OutputConnects output
    FeedForwardFun input rest (Function.update internal AimTag (some res)) new_output (Function.update objs AimTag obj)

variable [Plus V]

def CreateGradFromOutside (AimTag : Tag) (grad : VarTypeDict Name V) (outs : List (OutConnect Tag Name))
    (res : VarTypeDict Name V) : Except Fault (VarTypeDict Name V) :=
  VarTypeDict.fill accumulate (·.OutLayerTag = AimTag) OutConnect.OutLayerName (fun c => .ok (grad c.OutName)) outs res

def CreateGradFromInternal (AimTag : Tag) (internal : InternalResult Tag Name V)
    (inters : List (InternalConnect Tag Name)) (res : VarTypeDict Name V) : Except Fault (VarTypeDict Name V) :=
  VarTypeDict.fill accumulate (·.OutTag = AimTag) InternalConnect.OutName (fun c => internal.Get c.InTag c.InName) inters res

def FillResult (AimTag : Tag) (curLayerRes : VarTypeDict Name V) (ins : List (InConnect Tag Name))
    (res : VarTypeDict Name V) : Except Fault (VarTypeDict Name V) :=
  VarTypeDict.fill accumulate (·.InLayerTag = AimTag) InConnect.InName (fun c => .ok (curLayerRes c.InLayerName)) ins res

/-- The tags come from the last to the first. -/
def FeedBackwardFun (grad : VarTypeDict Name V) : List Tag → InternalResult Tag Name V → VarTypeDict Name V →
    (∀ tag, S tag) → Except Fault (VarTypeDict Name V × ∀ tag, S tag)
  | [], _, res, objs => .ok (res, objs)
  | AimTag :: rest, internal, res, objs => do
    let grad1 ← CreateGradFromOutside AimTag grad topo.OutputConnects VarTypeDict.Create
    let grad2 ← CreateGradFromInternal AimTag internal topo.InterConnects grad1
    let (curLayerRes, obj) ← (sublayers AimTag).FeedBackward grad2 (objs AimTag)
    let new_res ← FillResult AimTag curLayerRes topo.InputConnects res
    FeedBackwardFun grad rest (Function.update internal AimTag (some curLayerRes)) new_res
      (Function.update objs AimTag obj)

def GradCollectFun : List Tag → (∀ tag, S tag) → List ((Σ tag, W tag) × V) × (∀ tag, S tag)
  | [], objs => ([], objs)
  | tag :: rest, objs =>
    let (grads, obj) := (sublayers tag).GradCollect (objs tag)
    let (later, objs) := GradCollectFun rest (Function.update objs tag obj)
    (grads.map (fun g => (⟨tag, g.1⟩, g.2)) ++ later, objs)

def NeutralInvariantFun (objs : ∀ tag, S tag) : List Tag → Except Fault Unit
  | [] => .ok ()
  | tag :: rest => do
    (sublayers tag).NeutralInvariant (objs tag)
    NeutralInvariantFun objs rest

def ComposeKernel : LayerOps Name V (Σ tag, W tag) (∀ tag, S tag) where
  FeedForward p_in objs := FeedForwardFun topo sublayers p_in topo.tags (fun _ => none) VarTypeDict.Create objs
  FeedBackward p_grad objs :=
    FeedBackwardFun topo sublayers p_grad topo.tags.reverse (fun _ => none) VarTypeDict.Create objs
  GradCollect objs := GradCollectFun sublayers topo.tags objs
  NeutralInvariant objs := NeutralInvariantFun sublayers objs topo.tags

end

end Perception.MetaNN
