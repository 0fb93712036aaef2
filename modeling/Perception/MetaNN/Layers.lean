import Mathlib.Data.Fintype.Basic
import Perception.MetaNN.ComposeKernel

/-!
# Elementary layers

Matrices with the operators on them, and the layers that are not composed of others. What a forward step
leaves for the backward step over it lies on stacks.
-/
namespace Perception.MetaNN

set_option autoImplicit false

variable {E : Type}

/-- Elements outside are never read. -/
structure Matrix (E : Type) where
  RowNum : Nat
  ColNum : Nat
  val : Nat → Nat → E

namespace Matrix

def SameShape (a b : Matrix E) : Prop := b.RowNum = a.RowNum ∧ b.ColNum = a.ColNum

instance (a b : Matrix E) : Decidable (SameShape a b) := by
  unfold SameShape
  infer_instance

/-- An operator on the elements of a matrix. -/
def map (f : E → E) (a : Matrix E) : Matrix E := ⟨a.RowNum, a.ColNum, fun i j => f (a.val i j)⟩

/-- An operator on the elements of two matrices; it asserts that they have one shape. -/
def zip (f : E → E → E) (a b : Matrix E) : Option (Matrix E) :=
  if SameShape a b then some ⟨a.RowNum, a.ColNum, fun i j => f (a.val i j) (b.val i j)⟩ else none

instance [Add E] : Plus (Matrix E) where
  plus := zip (· + ·)

def Substract [Sub E] : Matrix E → Matrix E → Option (Matrix E) := zip (· - ·)

def ElementMul [Mul E] : Matrix E → Matrix E → Option (Matrix E) := zip (· * ·)

/-- `Scalar<int>(1) - …` -/
def OneMinus [One E] [Sub E] : Matrix E → Matrix E := map (1 - ·)

def Transpose (a : Matrix E) : Matrix E := ⟨a.ColNum, a.RowNum, fun i j => a.val j i⟩

/-- The sum that a loop over the terms builds. -/
def sumTo [Zero E] [Add E] (f : Nat → E) : Nat → E
  | 0 => 0
  | n + 1 => sumTo f n + f n

def Dot [Zero E] [Add E] [Mul E] (a b : Matrix E) : Option (Matrix E) :=
  if a.ColNum = b.RowNum then some ⟨a.RowNum, b.ColNum, fun i j => sumTo (fun k => a.val i k * b.val k j) a.ColNum⟩
  else none

/-- `Interpolate` of two matrices under a third. -/
def Interpolate [One E] [Add E] [Sub E] [Mul E] (v1 v2 v3 : Matrix E) : Option (Matrix E) :=
  if SameShape v1 v2 ∧ SameShape v1 v3 then
    some ⟨v1.RowNum, v1.ColNum, fun i j => v1.val i j * v3.val i j + v2.val i j * (1 - v3.val i j)⟩
  else none

end Matrix

/-- The functions of the standard library on elements. -/
class Elementary (E : Type) where
  exp : E → E
  tanh : E → E

/-- The names of inputs and outputs. -/
inductive Port where
  | LayerIo
  | AddLayerIn1
  | AddLayerIn2
  | ElementMulLayerIn1
  | ElementMulLayerIn2
  | InterpolateLayerWeight1
  | InterpolateLayerWeight2
  | InterpolateLayerLambda
  | RnnLayerHiddenBefore
  deriving DecidableEq

instance : Fintype Port where
  elems := {.LayerIo, .AddLayerIn1, .AddLayerIn2, .ElementMulLayerIn1, .ElementMulLayerIn2, .InterpolateLayerWeight1,
    .InterpolateLayerWeight2, .InterpolateLayerLambda, .RnnLayerHiddenBefore}
  complete := by
    intro port
    cases port <;> decide

/-- `Get` where a `NullParameter` does not compile. -/
def VarTypeDict.Get {Name V : Type} (d : VarTypeDict Name V) (name : Name) : Except Fault V :=
  match d name with
  | some v => .ok v
  | none => .error .illFormed

def asserted {V : Type} : Option V → Except Fault V
  | some v => .ok v
  | none => .error .assertion

/-- The top of a stack and what is under it. -/
def popped {V : Type} (what : String) : List V → Except Fault (V × List V)
  | [] => .error (.runtime_error what)
  | top :: rest => .ok (top, rest)

def neutral (isNeutral : Bool) : Except Fault Unit :=
  if isNeutral then .ok () else .error (.runtime_error "NeutralInvariant Fail!")

def output {V : Type} (v : V) : VarTypeDict Port V := VarTypeDict.Create.Set .LayerIo (some v)

structure WeightObj (E : Type) where
  m_weight : Matrix E
  m_updateInfo : List (Matrix E)
  m_gradInfo : List (Matrix E)

/-- The first block of `FeedBackward`: the gradient of the weight. -/
def WeightObj.updateGrad [Zero E] [Add E] [Mul E] (IsUpdate : Bool) (p_grad : VarTypeDict Port (Matrix E))
    (obj : WeightObj E) : Except Fault (WeightObj E) :=
  if IsUpdate then do
    let tmp ← p_grad.Get .LayerIo
    let (top, rest) ← popped "Cannot do FeedBackward for Weight Layer" obj.m_updateInfo
    let res ← asserted (top.Transpose.Dot tmp)
    .ok { obj with m_updateInfo := rest, m_gradInfo := res :: obj.m_gradInfo }
  else .ok obj

/-- The second block: the gradient of the input. -/
def WeightObj.outputGrad [Zero E] [Add E] [Mul E] (IsFeedbackOutput : Bool) (p_grad : VarTypeDict Port (Matrix E))
    (obj : WeightObj E) : Except Fault (VarTypeDict Port (Matrix E)) :=
  if IsFeedbackOutput then do
    let tmp ← p_grad.Get .LayerIo
    let res ← asserted (tmp.Dot obj.m_weight.Transpose)
    .ok (output res)
  else .ok VarTypeDict.Create

def WeightLayer [Zero E] [Add E] [Mul E] (IsFeedbackOutput IsUpdate : Bool) :
    LayerOps Port (Matrix E) Unit (WeightObj E) where
  FeedForward p_in obj := do
    let val ← p_in.Get .LayerIo
    let obj := if IsUpdate then { obj with m_updateInfo := val :: obj.m_updateInfo } else obj
    let res ← asserted (val.Dot obj.m_weight)
    .ok (output res, obj)
  FeedBackward p_grad obj := do
    let obj ← obj.updateGrad IsUpdate p_grad
    let res ← obj.outputGrad IsFeedbackOutput p_grad
    .ok (res, obj)
  GradCollect obj :=
    if IsUpdate then (obj.m_gradInfo.map fun g => ((), g), { obj with m_gradInfo := [] }) else ([], obj)
  NeutralInvariant obj := neutral (!IsUpdate || (obj.m_updateInfo.isEmpty && obj.m_gradInfo.isEmpty))

structure BiasObj (E : Type) where
  m_bias : Matrix E
  m_grad : List (Matrix E)

def BiasObj.updateGrad (IsUpdate : Bool) (p_grad : VarTypeDict Port (Matrix E)) (obj : BiasObj E) :
    Except Fault (BiasObj E) :=
  if IsUpdate then do
    let tmp ← p_grad.Get .LayerIo
    if tmp.RowNum = obj.m_bias.RowNum ∧ tmp.ColNum = obj.m_bias.ColNum then
      .ok { obj with m_grad := tmp :: obj.m_grad }
    else .error .assertion
  else .ok obj

def BiasLayer [Add E] (IsFeedbackOutput IsUpdate : Bool) : LayerOps Port (Matrix E) Unit (BiasObj E) where
  FeedForward p_in obj := do
    let val ← p_in.Get .LayerIo
    let res ← asserted (Plus.plus val obj.m_bias)
    .ok (output res, obj)
  FeedBackward p_grad obj := do
    let obj ← obj.updateGrad IsUpdate p_grad
    -- the gradient itself, a record with this one name
    .ok (if IsFeedbackOutput then VarTypeDict.Create.Set .LayerIo (p_grad .LayerIo) else VarTypeDict.Create, obj)
  GradCollect obj := if IsUpdate then (obj.m_grad.map fun g => ((), g), { obj with m_grad := [] }) else ([], obj)
  NeutralInvariant obj := neutral (!IsUpdate || obj.m_grad.isEmpty)

def AddLayer [Add E] (IsFeedbackOutput : Bool) : LayerOps Port (Matrix E) Empty Unit where
  FeedForward p_in obj := do
    let val1 ← p_in.Get .AddLayerIn1
    let val2 ← p_in.Get .AddLayerIn2
    let res ← asserted (Plus.plus val1 val2)
    .ok (output res, obj)
  FeedBackward p_grad obj :=
    if IsFeedbackOutput then
      let res := p_grad .LayerIo
      .ok ((VarTypeDict.Create.Set .AddLayerIn1 res).Set .AddLayerIn2 res, obj)
    else .ok (VarTypeDict.Create, obj)
  GradCollect obj := ([], obj)
  NeutralInvariant _ := .ok ()

structure ElementMulObj (E : Type) where
  m_data1 : List (Matrix E)
  m_data2 : List (Matrix E)

def ElementMulLayer [Mul E] (IsFeedbackOutput : Bool) : LayerOps Port (Matrix E) Empty (ElementMulObj E) where
  FeedForward p_in obj := do
    let val1 ← p_in.Get .ElementMulLayerIn1
    let val2 ← p_in.Get .ElementMulLayerIn2
    let obj := if IsFeedbackOutput then ⟨val1 :: obj.m_data1, val2 :: obj.m_data2⟩ else obj
    let res ← asserted (val1.ElementMul val2)
    .ok (output res, obj)
  FeedBackward p_grad obj :=
    if IsFeedbackOutput then do
      let (top1, rest1) ← popped "Cannot do FeedBackward for ElementMulLayer." obj.m_data1
      let (top2, rest2) ← popped "Cannot do FeedBackward for ElementMulLayer." obj.m_data2
      let grad_eval ← p_grad.Get .LayerIo
      let res1 ← asserted (grad_eval.ElementMul top2)
      let res2 ← asserted (grad_eval.ElementMul top1)
      .ok ((VarTypeDict.Create.Set .ElementMulLayerIn1 (some res1)).Set .ElementMulLayerIn2 (some res2), ⟨rest1, rest2⟩)
    else .ok (VarTypeDict.Create, obj)
  GradCollect obj := ([], obj)
  NeutralInvariant obj := neutral (!IsFeedbackOutput || (obj.m_data1.isEmpty && obj.m_data2.isEmpty))

structure InterpolateObj (E : Type) where
  m_weight1 : List (Matrix E)
  m_weight2 : List (Matrix E)
  m_weight_lambda : List (Matrix E)

def InterpolateLayer [One E] [Add E] [Sub E] [Mul E] (IsFeedbackOutput : Bool) :
    LayerOps Port (Matrix E) Empty (InterpolateObj E) where
  FeedForward p_in obj := do
    let val1 ← p_in.Get .InterpolateLayerWeight1
    let val2 ← p_in.Get .InterpolateLayerWeight2
    let val_lambda ← p_in.Get .InterpolateLayerLambda
    let obj := if IsFeedbackOutput then
      ⟨val1 :: obj.m_weight1, val2 :: obj.m_weight2, val_lambda :: obj.m_weight_lambda⟩ else obj
    let res ← asserted (val1.Interpolate val2 val_lambda)
    .ok (output res, obj)
  FeedBackward p_grad obj :=
    if IsFeedbackOutput then do
      let (weight1, rest1) ← popped "Cannot do FeedBackward for InterpolateLayer" obj.m_weight1
      let (weight2, rest2) ← popped "Cannot do FeedBackward for InterpolateLayer" obj.m_weight2
      let (lambda, rest3) ← popped "Cannot do FeedBackward for InterpolateLayer" obj.m_weight_lambda
      let tmp ← p_grad.Get .LayerIo
      let res1 ← asserted (lambda.ElementMul tmp)
      let res2 ← asserted (lambda.OneMinus.ElementMul tmp)
      let diff ← asserted (weight1.Substract weight2)
      let res_lambda ← asserted (diff.ElementMul tmp)
      .ok (((VarTypeDict.Create.Set .InterpolateLayerWeight1 (some res1)).Set .InterpolateLayerWeight2 (some res2)).Set
        .InterpolateLayerLambda (some res_lambda), ⟨rest1, rest2, rest3⟩)
    else .ok (VarTypeDict.Create, obj)
  GradCollect obj := ([], obj)
  NeutralInvariant obj := neutral
    (!IsFeedbackOutput || (obj.m_weight1.isEmpty && obj.m_weight2.isEmpty && obj.m_weight_lambda.isEmpty))

/-- A function on elements whose derivative the code takes from its value. The object is the stack of values. -/
def ActionLayer (f : E → E) (derivative : E → E → E) (IsFeedbackOutput : Bool) :
    LayerOps Port (Matrix E) Empty (List (Matrix E)) where
  FeedForward p_in m_data := do
    let val ← p_in.Get .LayerIo
    let tmp := val.map f
    .ok (output tmp, if IsFeedbackOutput then tmp :: m_data else m_data)
  FeedBackward p_grad m_data :=
    if IsFeedbackOutput then do
      let (tmp2, rest) ← popped "Cannot feed back in SigmoidLayer" m_data
      let tmp ← p_grad.Get .LayerIo
      let res ← asserted (tmp.zip derivative tmp2)
      .ok (output res, rest)
    else .ok (VarTypeDict.Create, m_data)
  GradCollect m_data := ([], m_data)
  NeutralInvariant m_data := neutral (!IsFeedbackOutput || m_data.isEmpty)

section

variable [One E] [Add E] [Sub E] [Mul E] [Neg E] [Div E] [Elementary E]

def Sigmoid (x : E) : E := 1 / (1 + Elementary.exp (-x))

def SigmoidDerivative (grad out : E) : E := grad * out * (1 - out)

def SigmoidLayer (IsFeedbackOutput : Bool) : LayerOps Port (Matrix E) Empty (List (Matrix E)) :=
  ActionLayer Sigmoid SigmoidDerivative IsFeedbackOutput

def TanhDerivative (grad out : E) : E := grad * (1 - out * out)

def TanhLayer (IsFeedbackOutput : Bool) : LayerOps Port (Matrix E) Empty (List (Matrix E)) :=
  ActionLayer Elementary.tanh TanhDerivative IsFeedbackOutput

end

end Perception.MetaNN
