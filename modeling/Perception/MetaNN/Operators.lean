import Perception.MetaNN.EvalPlan
import Perception.MetaNN.Layers

/-!
# Operators

An operator is a value that holds its operands and a buffer for its result; copies share the buffer. To register
it is to register its operands and then a unit that computes it.
-/
namespace Perception.MetaNN

set_option autoImplicit false

variable {E : Type}

/-- The natural logarithm of the standard library. -/
class Logarithm (E : Type) where
  log : E → E

/-- What an operator evaluates to. -/
inductive Principal (E : Type) where
  | matrix (m : Matrix E)
  | scalar (m_elem : E)

/-- `Collapse` only works on batches. -/
inductive UnaryOpTags where
  | Abs
  | Sigmoid
  | Sign
  | Tanh
  | Transpose
  | VecSoftmax
  deriving DecidableEq

inductive BinaryOpTags where
  | Add
  | Substract
  | ElementMul
  | Divide
  | Dot
  | NegativeLogLikelihood
  | SigmoidDerivative
  | TanhDerivative
  | VecSoftmaxDerivative
  deriving DecidableEq

inductive TernaryOpTags where
  | Interpolate
  | NegativeLogLikelihoodDerivative
  deriving DecidableEq

/-- The classes of units, with what their objects hold next to handles. `Case1` and `Case2` are the two of the case
that joins `VecSoftmaxDerivative` with `NegativeLogLikelihoodDerivative`. -/
inductive EvalUnitType (E : Type) where
  | TrivalMatrix (m_rowNum m_colNum : Nat) (m_val : E)
  | ZeroMatrix (m_rowNum m_colNum : Nat)
  | OneHotVector (m_rowNum m_colNum m_val : Nat)
  | UnaryOp (tag : UnaryOpTags)
  | BinaryOp (tag : BinaryOpTags)
  | TernaryOp (tag : TernaryOpTags)
  | Case1 (m_hotPos : Nat)
  | Case2
  deriving DecidableEq

/-- What a unit does with its output. -/
inductive Outcome (E : Type) where
  /-- An assert fails. -/
  | assertion
  /-- It returns before `SetEval`. -/
  | Allocate (data : Principal E)
  | SetEval (data : Principal E)
  /-- It registers the product of its first operand with `tmp`. -/
  | Register (tmp : Matrix E)

namespace Outcome

/-- The result of an operator that asserts shapes. -/
def ofOption : Option (Matrix E) → Outcome E
  | some m => .SetEval (.matrix m)
  | none => .assertion

theorem ofOption_ne_register (m : Option (Matrix E)) (tmp : Matrix E) : ofOption m ≠ .Register tmp := by
  intro h
  cases m <;> cases h

end Outcome

section

variable [Zero E] [One E] [Neg E] [LT E] [DecidableLT E] [DecidableEq E]

def Abs (x : E) : E := if 0 < x then x else -x

def Sign (x : E) : E := if x = 0 then 0 else if 0 < x then 1 else -1

end

namespace Matrix

/-- `*std::max_element` of the first `n + 1` values. -/
def maxElem [LT E] [DecidableLT E] (f : Nat → E) : Nat → E
  | 0 => f 0
  | n + 1 => if maxElem f n < f (n + 1) then f (n + 1) else maxElem f n

/-- The unit returns early for an empty row. -/
def VecSoftmax [Zero E] [Add E] [Sub E] [Div E] [Elementary E] [LT E] [DecidableLT E] (p_v : Matrix E) : Outcome E :=
  if p_v.RowNum ≠ 1 then .assertion
  else if p_v.ColNum = 0 then .Allocate (.matrix ⟨1, 0, p_v.val⟩)
  else
    let maxElem := maxElem (p_v.val 0) (p_v.ColNum - 1)
    let r := fun i => Elementary.exp (p_v.val 0 i - maxElem)
    let sum := sumTo r p_v.ColNum
    .SetEval (.matrix ⟨1, p_v.ColNum, fun _ i => r i / sum⟩)

/-- The loop runs over the rows and in each over the columns. -/
def NegativeLogLikelihood [Zero E] [Sub E] [Mul E] [Logarithm E] (p_tar p_pre : Matrix E) : Option E :=
  if SameShape p_tar p_pre then
    some ((List.range p_tar.RowNum).foldl (fun res i =>
      (List.range p_tar.ColNum).foldl (fun res j => res - p_tar.val i j * Logarithm.log (p_pre.val i j)) res) 0)
  else none

def NegativeLogLikelihoodDerivative [Neg E] [Mul E] [Div E] (p_grad : E) (p_tar p_pre : Matrix E) : Option (Matrix E) :=
  zip (fun tar pre => p_grad * (-tar / pre)) p_tar p_pre

/-- The derivatives of the elements of a softmax by what it was applied to. -/
def VecSoftmaxJacobian [One E] [Add E] [Mul E] [Neg E] (p_sout : Matrix E) : Matrix E :=
  ⟨p_sout.ColNum, p_sout.ColNum, fun i j =>
    let value := -1 * p_sout.val 0 i * p_sout.val 0 j
    if i = j then p_sout.val 0 i + value else value⟩

def VecSoftmaxDerivative [One E] [Add E] [Mul E] [Neg E] (p_grad p_sout : Matrix E) : Outcome E :=
  if p_grad.RowNum = 1 ∧ p_sout.RowNum = 1 ∧ p_grad.ColNum = p_sout.ColNum then .Register (VecSoftmaxJacobian p_sout)
  else .assertion

def NllCase1 [Sub E] [Mul E] (grad : E) (m_hotPos : Nat) (p_pre : Matrix E) : Option (Matrix E) :=
  if p_pre.RowNum = 1 ∧ m_hotPos < p_pre.ColNum then
    some ⟨1, p_pre.ColNum, fun _ i => if i = m_hotPos then p_pre.val 0 i * grad - grad else p_pre.val 0 i * grad⟩
  else none

def NllCase2 [Zero E] [Add E] [Sub E] [Mul E] (grad : E) (p_tar p_pre : Matrix E) : Option (Matrix E) :=
  if p_tar.RowNum = 1 ∧ p_pre.RowNum = 1 ∧ p_tar.ColNum = p_pre.ColNum then
    let sum := sumTo (p_tar.val 0) p_tar.ColNum
    some ⟨1, p_tar.ColNum, fun _ i => (p_pre.val 0 i * sum - p_tar.val 0 i) * grad⟩
  else none

end Matrix

section

variable [Zero E] [One E] [Add E] [Sub E] [Mul E] [Neg E] [Div E] [Elementary E] [Logarithm E] [LT E] [DecidableLT E]
  [DecidableEq E]

def computeUnary (p_v : Matrix E) : UnaryOpTags → Outcome E
  | .Abs => .SetEval (.matrix (p_v.map Abs))
  | .Sigmoid => .SetEval (.matrix (p_v.map Sigmoid))
  | .Sign => .SetEval (.matrix (p_v.map Sign))
  | .Tanh => .SetEval (.matrix (p_v.map Elementary.tanh))
  | .Transpose => .SetEval (.matrix p_v.Transpose)
  | .VecSoftmax => p_v.VecSoftmax

def computeBinary (p_v1 p_v2 : Matrix E) : BinaryOpTags → Outcome E
  | .Add => .ofOption (p_v1.zip (· + ·) p_v2)
  | .Substract => .ofOption (p_v1.Substract p_v2)
  | .ElementMul => .ofOption (p_v1.ElementMul p_v2)
  | .Divide => .ofOption (p_v1.zip (· / ·) p_v2)
  | .Dot => .ofOption (p_v1.Dot p_v2)
  | .NegativeLogLikelihood =>
    match p_v1.NegativeLogLikelihood p_v2 with
    | some res => .SetEval (.scalar res)
    | none => .assertion
  | .SigmoidDerivative => .ofOption (p_v1.zip SigmoidDerivative p_v2)
  | .TanhDerivative => .ofOption (p_v1.zip TanhDerivative p_v2)
  | .VecSoftmaxDerivative => p_v1.VecSoftmaxDerivative p_v2

/-- Operands of other categories do not compile. -/
def EvalUnitType.compute : EvalUnitType E → List (Principal E) → Outcome E
  | TrivalMatrix m_rowNum m_colNum m_val, [] => .SetEval (.matrix ⟨m_rowNum, m_colNum, fun _ _ => m_val⟩)
  | ZeroMatrix m_rowNum m_colNum, [] => .SetEval (.matrix ⟨m_rowNum, m_colNum, fun _ _ => 0⟩)
  | OneHotVector m_rowNum m_colNum m_val, [] =>
    .SetEval (.matrix ⟨m_rowNum, m_colNum, fun i j => if i * m_colNum + j = m_val then 1 else 0⟩)
  | UnaryOp tag, [.matrix p_v] => computeUnary p_v tag
  | BinaryOp tag, [.matrix p_v1, .matrix p_v2] => computeBinary p_v1 p_v2 tag
  | TernaryOp .Interpolate, [.matrix p_v1, .matrix p_v2, .matrix p_v3] => .ofOption (p_v1.Interpolate p_v2 p_v3)
  | TernaryOp .NegativeLogLikelihoodDerivative, [.scalar p_grad, .matrix p_tar, .matrix p_pre] =>
    .ofOption (Matrix.NegativeLogLikelihoodDerivative p_grad p_tar p_pre)
  | Case1 m_hotPos, [.matrix p_pre, .scalar grad] => .ofOption (Matrix.NllCase1 grad m_hotPos p_pre)
  | Case2, [.matrix p_pre, .scalar grad, .matrix p_tar] => .ofOption (Matrix.NllCase2 grad p_tar p_pre)
  | _, _ => .assertion

/-- What a unit, and what it registers, make of their operands. -/
def EvalUnitType.value (type : EvalUnitType E) (operands : List (Principal E)) : Option (Principal E) :=
  match type.compute operands with
  | .SetEval data => some data
  | .Register tmp =>
    match operands with
    | .matrix p_grad :: _ => (p_grad.Dot tmp).map Principal.matrix
    | _ => none
  | _ => none

omit [Mul E] [Logarithm E] in
theorem computeUnary_ne_register (tag : UnaryOpTags) (p_v tmp : Matrix E) : computeUnary p_v tag ≠ .Register tmp := by
  intro h
  cases tag with
  | VecSoftmax =>
    simp only [computeUnary, Matrix.VecSoftmax] at h
    split at h
    · cases h
    · split at h <;> cases h
  | _ => cases h

omit [Elementary E] [LT E] [DecidableLT E] [DecidableEq E] in
theorem computeBinary_eq_register {tag : BinaryOpTags} {p_v1 p_v2 tmp : Matrix E}
    (h : computeBinary p_v1 p_v2 tag = .Register tmp) : tag = .VecSoftmaxDerivative := by
  cases tag with
  | VecSoftmaxDerivative => rfl
  | NegativeLogLikelihood =>
    simp only [computeBinary] at h
    split at h <;> cases h
  | _ => exact absurd h (Outcome.ofOption_ne_register _ _)

/-- Only the general derivative of a softmax registers another unit. -/
theorem EvalUnitType.compute_eq_register {type : EvalUnitType E} {vs : List (Principal E)} {tmp : Matrix E}
    (h : type.compute vs = .Register tmp) :
    type = .BinaryOp .VecSoftmaxDerivative ∧ ∃ p_grad p_sout, vs = [.matrix p_grad, .matrix p_sout] := by
  unfold compute at h
  split at h
  case h_4 tag p_v => exact absurd h (computeUnary_ne_register tag p_v tmp)
  case h_5 tag p_v1 p_v2 =>
    rw [computeBinary_eq_register h]
    exact ⟨rfl, p_v1, p_v2, rfl⟩
  all_goals first
    | exact absurd h (Outcome.ofOption_ne_register _ _)
    | cases h

end

structure EvalUnit (E : Type) where
  type : EvalUnitType E
  m_oper : List (ConstEvalHandle (Principal E))
  m_evalOutput : Address

inductive HandleType where
  | constData
  | evalHandle
  | dynamic
  deriving DecidableEq

def ConstEvalHandle.type {α : Type} : ConstEvalHandle α → HandleType
  | constData _ => .constData
  | evalHandle _ => .evalHandle
  | dynamic _ => .dynamic

/-- `typeid(TEvalGroup)`: the class of the units of the group, and the types of their handles. -/
structure TypeIndex where
  unit : EvalUnitType Unit
  handles : List HandleType
  deriving DecidableEq

def EvalUnitType.erase : EvalUnitType E → EvalUnitType Unit
  | TrivalMatrix .. => .TrivalMatrix 0 0 ()
  | ZeroMatrix .. => .ZeroMatrix 0 0
  | OneHotVector .. => .OneHotVector 0 0 0
  | UnaryOp tag => .UnaryOp tag
  | BinaryOp tag => .BinaryOp tag
  | TernaryOp tag => .TernaryOp tag
  | Case1 _ => .Case1 0
  | Case2 => .Case2

abbrev OperState (E : Type) := EvalState (Principal E) TypeIndex (EvalUnit E)

/-- `Register` of a unit for its output. -/
def EvalState.registerUnit (unit : EvalUnit E) (s : OperState E) : OperState E :=
  s.Register ⟨unit.type.erase, unit.m_oper.map ConstEvalHandle.type⟩ unit (.info unit.m_evalOutput)
    (unit.m_oper.map ConstEvalHandle.DataPtr)

def EvalUnit.Eval [Zero E] [One E] [Add E] [Sub E] [Mul E] [Neg E] [Div E] [Elementary E] [Logarithm E] [LT E]
    [DecidableLT E] [DecidableEq E] (unit : EvalUnit E) (s : OperState E) : Except Stop (OperState E) := do
  let operands ← unit.m_oper.mapM (ConstEvalHandle.Data s.heap)
  match unit.type.compute operands with
  | .assertion => .error (.fault .assertion)
  | .Allocate data => do
    let heap ← EvalHandle.Allocate data unit.m_evalOutput s.heap
    .ok { s with heap := heap }
  | .SetEval data => do
    let heap ← EvalHandle.Allocate data unit.m_evalOutput s.heap
    let heap ← EvalHandle.SetEval unit.m_evalOutput heap
    .ok { s with heap := heap }
  | .Register tmp =>
    .ok (s.registerUnit ⟨.BinaryOp .Dot, unit.m_oper.take 1 ++ [.constData (.matrix tmp)], unit.m_evalOutput⟩)

/-- Data and operators on them. A matrix knows the memory that its copies share, and what needs evaluation its
buffer. -/
inductive Data (E : Type) where
  | Matrix (m_mem : Address) (m : Matrix E)
  | Scalar (m_elem : E)
  | TrivalMatrix (m_evalBuf : Address) (m_rowNum m_colNum : Nat) (m_val : E)
  | ZeroMatrix (m_evalBuf : Address) (m_rowNum m_colNum : Nat)
  | OneHotVector (m_evalBuf : Address) (m_colNum m_hotPos : Nat)
  | DynamicData (m_baseData : Data E)
  | UnaryOp (m_evalBuf : Address) (tag : UnaryOpTags) (m_data : Data E)
  | BinaryOp (m_evalBuf : Address) (tag : BinaryOpTags) (m_data1 m_data2 : Data E)
  | TernaryOp (m_evalBuf : Address) (tag : TernaryOpTags) (m_data1 m_data2 m_data3 : Data E)

namespace Data

variable [DecidableEq E]

/-- `operator==`; data of different types are not equal. -/
def eq : Data E → Data E → Bool
  | Matrix m_mem m, Matrix m_mem' m' => m_mem == m_mem' && m.RowNum == m'.RowNum && m.ColNum == m'.ColNum
  | Scalar m_elem, Scalar m_elem' => m_elem == m_elem'
  | TrivalMatrix _ m_rowNum m_colNum m_val, TrivalMatrix _ m_rowNum' m_colNum' m_val' =>
    m_val == m_val' && m_rowNum == m_rowNum' && m_colNum == m_colNum'
  | ZeroMatrix _ m_rowNum m_colNum, ZeroMatrix _ m_rowNum' m_colNum' => m_rowNum == m_rowNum' && m_colNum == m_colNum'
  | OneHotVector _ m_colNum m_hotPos, OneHotVector _ m_colNum' m_hotPos' =>
    m_hotPos == m_hotPos' && m_colNum == m_colNum'
  | DynamicData m_baseData, DynamicData m_baseData' => m_baseData.eq m_baseData'
  | UnaryOp _ tag m_data, UnaryOp _ tag' m_data' => tag == tag' && m_data.eq m_data'
  | BinaryOp _ tag m_data1 m_data2, BinaryOp _ tag' m_data1' m_data2' =>
    tag == tag' && m_data1.eq m_data1' && m_data2.eq m_data2'
  | TernaryOp _ tag m_data1 m_data2 m_data3, TernaryOp _ tag' m_data1' m_data2' m_data3' =>
    tag == tag' && m_data1.eq m_data1' && m_data2.eq m_data2' && m_data3.eq m_data3'
  | _, _ => false

/-- What is evaluated already is not registered. The derivative of a softmax whose gradient is that of a likelihood
of the same softmax is computed from the operands of the latter. -/
def EvalRegister : Data E → OperState E → ConstEvalHandle (Principal E) × OperState E
  | Matrix _ m, s => (.constData (.matrix m), s)
  | Scalar m_elem, s => (.constData (.scalar m_elem), s)
  | TrivalMatrix m_evalBuf m_rowNum m_colNum m_val, s =>
    (.evalHandle m_evalBuf,
      if EvalHandle.IsEvaluated s.heap m_evalBuf then s
      else s.registerUnit ⟨.TrivalMatrix m_rowNum m_colNum m_val, [], m_evalBuf⟩)
  | ZeroMatrix m_evalBuf m_rowNum m_colNum, s =>
    (.evalHandle m_evalBuf,
      if EvalHandle.IsEvaluated s.heap m_evalBuf then s
      else s.registerUnit ⟨.ZeroMatrix m_rowNum m_colNum, [], m_evalBuf⟩)
  | OneHotVector m_evalBuf m_colNum m_hotPos, s =>
    (.evalHandle m_evalBuf,
      if EvalHandle.IsEvaluated s.heap m_evalBuf then s
      else s.registerUnit ⟨.OneHotVector 1 m_colNum m_hotPos, [], m_evalBuf⟩)
  | DynamicData m_baseData, s =>
    let (handle, s) := m_baseData.EvalRegister s
    (.dynamic handle, s)
  | UnaryOp m_evalBuf tag m_data, s =>
    (.evalHandle m_evalBuf,
      if EvalHandle.IsEvaluated s.heap m_evalBuf then s
      else
        let (handle, s) := m_data.EvalRegister s
        s.registerUnit ⟨.UnaryOp tag, [handle], m_evalBuf⟩)
  | BinaryOp m_evalBuf tag m_data1 m_data2, s =>
    (.evalHandle m_evalBuf,
      if EvalHandle.IsEvaluated s.heap m_evalBuf then s
      else
        let general := fun _ : Unit =>
          let (handle1, s) := m_data1.EvalRegister s
          let (handle2, s) := m_data2.EvalRegister s
          s.registerUnit ⟨.BinaryOp tag, [handle1, handle2], m_evalBuf⟩
        match tag, m_data1 with
        | .VecSoftmaxDerivative, TernaryOp _ .NegativeLogLikelihoodDerivative grad tar softmax_res =>
          if softmax_res.eq m_data2 then
            let (softmaxRes, s) := m_data2.EvalRegister s
            let (handle1, s) := grad.EvalRegister s
            match tar with
            | DynamicData (OneHotVector _ _ m_hotPos) =>
              s.registerUnit ⟨.Case1 m_hotPos, [softmaxRes, handle1], m_evalBuf⟩
            | tar =>
              let (handle2, s) := tar.EvalRegister s
              s.registerUnit ⟨.Case2, [softmaxRes, handle1, handle2], m_evalBuf⟩
          else general ()
        | _, _ => general ())
  | TernaryOp m_evalBuf tag m_data1 m_data2 m_data3, s =>
    (.evalHandle m_evalBuf,
      if EvalHandle.IsEvaluated s.heap m_evalBuf then s
      else
        let (handle1, s) := m_data1.EvalRegister s
        let (handle2, s) := m_data2.EvalRegister s
        let (handle3, s) := m_data3.EvalRegister s
        s.registerUnit ⟨.TernaryOp tag, [handle1, handle2, handle3], m_evalBuf⟩)

/-- What `EvalRegister` asks the plan for: the buffer, the unit, and the operands that it registers before. -/
def request : Data E → Option (Address × EvalUnitType E × List (Data E))
  | Matrix .. => none
  | Scalar .. => none
  | TrivalMatrix m_evalBuf m_rowNum m_colNum m_val => some (m_evalBuf, .TrivalMatrix m_rowNum m_colNum m_val, [])
  | ZeroMatrix m_evalBuf m_rowNum m_colNum => some (m_evalBuf, .ZeroMatrix m_rowNum m_colNum, [])
  | OneHotVector m_evalBuf m_colNum m_hotPos => some (m_evalBuf, .OneHotVector 1 m_colNum m_hotPos, [])
  | DynamicData _ => none
  | UnaryOp m_evalBuf tag m_data => some (m_evalBuf, .UnaryOp tag, [m_data])
  | BinaryOp m_evalBuf tag m_data1 m_data2 =>
    match tag, m_data1 with
    | .VecSoftmaxDerivative, TernaryOp _ .NegativeLogLikelihoodDerivative grad tar softmax_res =>
      if softmax_res.eq m_data2 then
        match tar with
        | DynamicData (OneHotVector _ _ m_hotPos) => some (m_evalBuf, .Case1 m_hotPos, [m_data2, grad])
        | tar => some (m_evalBuf, .Case2, [m_data2, grad, tar])
      else some (m_evalBuf, .BinaryOp tag, [m_data1, m_data2])
    | _, _ => some (m_evalBuf, .BinaryOp tag, [m_data1, m_data2])
  | TernaryOp m_evalBuf tag m_data1 m_data2 m_data3 => some (m_evalBuf, .TernaryOp tag, [m_data1, m_data2, m_data3])

/-- The handle that `EvalRegister` returns. -/
def handle : Data E → ConstEvalHandle (Principal E)
  | Matrix _ m => .constData (.matrix m)
  | Scalar m_elem => .constData (.scalar m_elem)
  | DynamicData m_baseData => .dynamic m_baseData.handle
  | TrivalMatrix m_evalBuf .. => .evalHandle m_evalBuf
  | ZeroMatrix m_evalBuf .. => .evalHandle m_evalBuf
  | OneHotVector m_evalBuf .. => .evalHandle m_evalBuf
  | UnaryOp m_evalBuf .. => .evalHandle m_evalBuf
  | BinaryOp m_evalBuf .. => .evalHandle m_evalBuf
  | TernaryOp m_evalBuf .. => .evalHandle m_evalBuf

theorem EvalRegister_fst (d : Data E) (s : OperState E) : (d.EvalRegister s).1 = d.handle := by
  induction d with
  | DynamicData d ih =>
    unfold EvalRegister handle
    rw [← ih]
  | _ =>
    unfold EvalRegister handle
    rfl

/-- The operands are registered one after another. -/
def registerAll (ds : List (Data E)) (s : OperState E) : OperState E := ds.foldl (fun s d => (d.EvalRegister s).2) s

theorem EvalRegister_of_request {d : Data E} {a : Address} {type : EvalUnitType E} {operands : List (Data E)}
    (h : d.request = some (a, type, operands)) (s : OperState E) :
    (d.EvalRegister s).2 = if EvalHandle.IsEvaluated s.heap a then s
      else (registerAll operands s).registerUnit ⟨type, operands.map handle, a⟩ := by
  cases d with
  | Matrix => cases h
  | Scalar => cases h
  | DynamicData => cases h
  | TrivalMatrix =>
    cases h
    rfl
  | ZeroMatrix =>
    cases h
    rfl
  | OneHotVector =>
    cases h
    rfl
  | UnaryOp =>
    cases h
    simp only [EvalRegister, registerAll, List.foldl_cons, List.foldl_nil, List.map_cons, List.map_nil, EvalRegister_fst]
  | TernaryOp =>
    cases h
    simp only [EvalRegister, registerAll, List.foldl_cons, List.foldl_nil, List.map_cons, List.map_nil, EvalRegister_fst]
  | BinaryOp m_evalBuf tag m_data1 m_data2 =>
    simp only [request] at h
    simp only [EvalRegister]
    split at h
    · split at h
      · next hsame =>
        split at h
        · cases h
          simp only [hsame, registerAll, List.foldl_cons, List.foldl_nil, List.map_cons, List.map_nil, EvalRegister_fst]
          rfl
        · next hdense =>
          cases h
          simp only [hsame, registerAll, List.foldl_cons, List.foldl_nil, List.map_cons, List.map_nil, EvalRegister_fst]
          simp
      · next hdiffer =>
        cases h
        simp only [hdiffer, registerAll, List.foldl_cons, List.foldl_nil, List.map_cons, List.map_nil, EvalRegister_fst]
        rfl
    · next hgeneral =>
      cases h
      simp only [registerAll, List.foldl_cons, List.foldl_nil, List.map_cons, List.map_nil, EvalRegister_fst]

theorem request_handle {d : Data E} {a : Address} {type : EvalUnitType E} {operands : List (Data E)}
    (h : d.request = some (a, type, operands)) : d.handle = .evalHandle a := by
  cases d with
  | Matrix => cases h
  | Scalar => cases h
  | DynamicData => cases h
  | BinaryOp =>
    simp only [request] at h
    split at h
    · split at h
      · split at h <;> cases h <;> rfl
      · cases h
        rfl
    · cases h
      rfl
  | _ =>
    cases h
    rfl

/-- What an operator or a wrapper holds. -/
def children : Data E → List (Data E)
  | DynamicData m_baseData => [m_baseData]
  | UnaryOp _ _ m_data => [m_data]
  | BinaryOp _ _ m_data1 m_data2 => [m_data1, m_data2]
  | TernaryOp _ _ m_data1 m_data2 m_data3 => [m_data1, m_data2, m_data3]
  | _ => []

omit [DecidableEq E] in
theorem sizeOf_child {d x : Data E} (hx : x ∈ d.children) : sizeOf x < sizeOf d := by
  cases d <;> simp only [children, List.mem_cons, List.not_mem_nil, or_false] at hx
  case DynamicData =>
    rw [hx, DynamicData.sizeOf_spec]
    omega
  case UnaryOp =>
    rw [hx, UnaryOp.sizeOf_spec]
    omega
  case BinaryOp =>
    rw [BinaryOp.sizeOf_spec]
    rcases hx with rfl | rfl <;> omega
  case TernaryOp =>
    rw [TernaryOp.sizeOf_spec]
    rcases hx with rfl | rfl | rfl <;> omega

theorem operand_child {d x : Data E} {a : Address} {type : EvalUnitType E} {operands : List (Data E)}
    (h : d.request = some (a, type, operands)) (hx : x ∈ operands) :
    x ∈ d.children ∨ ∃ y ∈ d.children, x ∈ y.children := by
  cases d with
  | BinaryOp m_evalBuf tag m_data1 m_data2 =>
    simp only [request] at h
    split at h
    · split at h
      · split at h <;> cases h <;> simp [children] at hx ⊢ <;> tauto
      · cases h
        exact .inl hx
    · cases h
      exact .inl hx
  | _ =>
    cases h <;> exact .inl hx

theorem request_eq_none {d : Data E} (h : d.request = none) :
    (∃ m_mem m, d = Matrix m_mem m) ∨ (∃ m_elem, d = Scalar m_elem) ∨ ∃ m_baseData, d = DynamicData m_baseData := by
  cases d with
  | Matrix m_mem m => exact .inl ⟨m_mem, m, rfl⟩
  | Scalar m_elem => exact .inr (.inl ⟨m_elem, rfl⟩)
  | DynamicData m_baseData => exact .inr (.inr ⟨m_baseData, rfl⟩)
  | BinaryOp =>
    simp only [request] at h
    split at h
    · split at h
      · split at h <;> cases h
      · cases h
    · cases h
  | _ => cases h

/-- Requests come after those of their operands. -/
theorem request_induction {P : Data E → Prop} (matrix : ∀ m_mem m, P (Matrix m_mem m)) (scalar : ∀ m_elem, P (Scalar m_elem))
    (dynamic : ∀ m_baseData, P m_baseData → P (DynamicData m_baseData))
    (request : ∀ d a type operands, d.request = some (a, type, operands) → (∀ x ∈ operands, P x) → P d) (d : Data E) :
    P d := by
  induction hsize : sizeOf d using Nat.strong_induction_on generalizing d with
  | _ n ih =>
    cases hrequest : d.request with
    | none =>
      rcases request_eq_none hrequest with ⟨m_mem, m, rfl⟩ | ⟨m_elem, rfl⟩ | ⟨m_baseData, rfl⟩
      · exact matrix m_mem m
      · exact scalar m_elem
      · exact dynamic m_baseData (ih _ (hsize ▸ sizeOf_child List.mem_cons_self) m_baseData rfl)
    | some r =>
      obtain ⟨a, type, operands⟩ := r
      refine request d a type operands hrequest fun x hx => ih (sizeOf x) ?_ x rfl
      rw [← hsize]
      rcases operand_child hrequest hx with hx | ⟨y, hy, hx⟩
      · exact sizeOf_child hx
      · exact (sizeOf_child hx).trans (sizeOf_child hy)

variable [Zero E] [One E] [Add E] [Sub E] [Mul E] [Neg E] [Div E] [Elementary E] [Logarithm E] [LT E] [DecidableLT E]

/-- Nothing when a unit on the way fails an assert or leaves its output unset. -/
def value : Data E → Option (Principal E)
  | Matrix _ m => some (.matrix m)
  | Scalar m_elem => some (.scalar m_elem)
  | TrivalMatrix _ m_rowNum m_colNum m_val => (EvalUnitType.TrivalMatrix m_rowNum m_colNum m_val).value []
  | ZeroMatrix _ m_rowNum m_colNum => (EvalUnitType.ZeroMatrix m_rowNum m_colNum).value []
  | OneHotVector _ m_colNum m_hotPos => (EvalUnitType.OneHotVector 1 m_colNum m_hotPos).value []
  | DynamicData m_baseData => m_baseData.value
  | UnaryOp _ tag m_data => do
    let v ← m_data.value
    (EvalUnitType.UnaryOp tag).value [v]
  | BinaryOp _ tag m_data1 m_data2 =>
    let general := fun _ : Unit => do
      let v1 ← m_data1.value
      let v2 ← m_data2.value
      (EvalUnitType.BinaryOp tag).value [v1, v2]
    match tag, m_data1 with
    | .VecSoftmaxDerivative, TernaryOp _ .NegativeLogLikelihoodDerivative grad tar softmax_res =>
      if softmax_res.eq m_data2 then
        match tar with
        | DynamicData (OneHotVector _ _ m_hotPos) => do
          let pre ← m_data2.value
          let v1 ← grad.value
          (EvalUnitType.Case1 m_hotPos).value [pre, v1]
        | tar => do
          let pre ← m_data2.value
          let v1 ← grad.value
          let v2 ← tar.value
          EvalUnitType.Case2.value [pre, v1, v2]
      else general ()
    | _, _ => general ()
  | TernaryOp _ tag m_data1 m_data2 m_data3 => do
    let v1 ← m_data1.value
    let v2 ← m_data2.value
    let v3 ← m_data3.value
    (EvalUnitType.TernaryOp tag).value [v1, v2, v3]

theorem value_of_request {d : Data E} {a : Address} {type : EvalUnitType E} {operands : List (Data E)}
    (h : d.request = some (a, type, operands)) : d.value = (operands.mapM value).bind type.value := by
  cases d with
  | Matrix => cases h
  | Scalar => cases h
  | DynamicData => cases h
  | TrivalMatrix =>
    cases h
    rfl
  | ZeroMatrix =>
    cases h
    rfl
  | OneHotVector =>
    cases h
    rfl
  | UnaryOp =>
    cases h
    simp [value, List.mapM_cons, Option.bind_assoc]
  | TernaryOp =>
    cases h
    simp [value, List.mapM_cons, Option.bind_assoc]
  | BinaryOp m_evalBuf tag m_data1 m_data2 =>
    simp only [request] at h
    unfold value
    split at h
    · split at h
      · next hsame =>
        split at h
        · cases h
          simp [hsame, List.mapM_cons, Option.bind_assoc]
        · next hdense =>
          cases h
          simp [hsame, List.mapM_cons, Option.bind_assoc]
      · next hdiffer =>
        cases h
        simp [hdiffer, List.mapM_cons, Option.bind_assoc]
    · next hgeneral =>
      cases h
      simp [List.mapM_cons, Option.bind_assoc]

end Data

end Perception.MetaNN
