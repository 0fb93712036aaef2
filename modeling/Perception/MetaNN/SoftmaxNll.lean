import Perception.MetaNN.Evaluate

/-!
# The derivative of a softmax under a likelihood

`VecSoftmaxDerivative` of the derivative of a likelihood of the same softmax is computed in one step. Over the reals
this is what its two steps give, wherever the softmax is not zero.
-/
namespace Perception.MetaNN

set_option autoImplicit false

open Perception.Lib.StateExcept

variable {E : Type} [DecidableEq E]

namespace Data

/-- What `operator==` looks at. -/
def key [Zero E] : Data E → Data E
  | Matrix m_mem m => Matrix m_mem ⟨m.RowNum, m.ColNum, fun _ _ => 0⟩
  | Scalar m_elem => Scalar m_elem
  | TrivalMatrix _ m_rowNum m_colNum m_val => TrivalMatrix 0 m_rowNum m_colNum m_val
  | ZeroMatrix _ m_rowNum m_colNum => ZeroMatrix 0 m_rowNum m_colNum
  | OneHotVector _ m_colNum m_hotPos => OneHotVector 0 m_colNum m_hotPos
  | DynamicData m_baseData => DynamicData m_baseData.key
  | UnaryOp _ tag m_data => UnaryOp 0 tag m_data.key
  | BinaryOp _ tag m_data1 m_data2 => BinaryOp 0 tag m_data1.key m_data2.key
  | TernaryOp _ tag m_data1 m_data2 m_data3 => TernaryOp 0 tag m_data1.key m_data2.key m_data3.key

theorem eq_iff [Zero E] (d d' : Data E) : d.eq d' = true ↔ d.key = d'.key := by
  induction d generalizing d' with
  | Matrix m_mem m => cases d' <;> simp [eq, key, and_assoc]
  | Scalar m_elem => cases d' <;> simp [eq, key]
  | TrivalMatrix m_evalBuf m_rowNum m_colNum m_val =>
    cases d' <;> simp [eq, key]
    tauto
  | ZeroMatrix m_evalBuf m_rowNum m_colNum => cases d' <;> simp [eq, key]
  | OneHotVector m_evalBuf m_colNum m_hotPos =>
    cases d' <;> simp [eq, key]
    tauto
  | DynamicData m_baseData ih => cases d' <;> simp [eq, key, ih]
  | UnaryOp m_evalBuf tag m_data ih => cases d' <;> simp [eq, key, ih]
  | BinaryOp m_evalBuf tag m_data1 m_data2 ih1 ih2 => cases d' <;> simp [eq, key, ih1, ih2, and_assoc]
  | TernaryOp m_evalBuf tag m_data1 m_data2 m_data3 ih1 ih2 ih3 =>
    cases d' <;> simp [eq, key, ih1, ih2, ih3, and_assoc]

omit [DecidableEq E] in
theorem key_key [Zero E] (d : Data E) : d.key.key = d.key := by
  induction d <;> simp_all [key]

theorem eq_key [Zero E] (d d' : Data E) : d.key.eq d'.key = d.eq d' := by
  rw [Bool.eq_iff_iff, eq_iff, eq_iff, key_key, key_key]

/-- What is registered for a value only depends on what `operator==` looks at. -/
theorem request_key [Zero E] (d : Data E) :
    d.key.request = d.request.map fun (_, type, operands) => (0, type, operands.map key) := by
  cases d with
  | BinaryOp m_evalBuf tag m_data1 m_data2 =>
    cases tag with
    | VecSoftmaxDerivative =>
      cases m_data1 with
      | TernaryOp b tag grad tar softmax_res =>
        cases tag with
        | NegativeLogLikelihoodDerivative =>
          simp only [key, request, eq_key]
          split
          · cases tar with
            | DynamicData m_baseData => cases m_baseData <;> rfl
            | _ => rfl
          · rfl
        | Interpolate => rfl
      | _ => rfl
    | _ => rfl
  | _ => rfl

end Data

section

variable [Zero E] [One E] [Add E] [Sub E] [Mul E] [Neg E] [Div E] [Elementary E] [Logarithm E] [LT E] [DecidableLT E]
  {exprs : List (Data E)}

theorem mapM_value_of_key {ds ds' : List (Data E)} (hkeys : ds.map Data.key = ds'.map Data.key)
    (h : ∀ x ∈ ds, ∀ y ∈ ds', x.key = y.key → x.value = y.value) : ds.mapM Data.value = ds'.mapM Data.value := by
  induction ds generalizing ds' with
  | nil =>
    obtain rfl := List.map_eq_nil_iff.mp hkeys.symm
    rfl
  | cons x ds ih =>
    cases ds' with
    | nil => cases hkeys
    | cons y ds' =>
      rw [List.map_cons, List.map_cons, List.cons.injEq] at hkeys
      rw [List.mapM_cons, List.mapM_cons, h x List.mem_cons_self y List.mem_cons_self hkeys.1,
        ih hkeys.2 fun x hx y hy => h x (List.mem_cons_of_mem _ hx) y (List.mem_cons_of_mem _ hy)]

/-- In a program, equal values stand for the same. -/
theorem Made.value_of_key (h : Made exprs) {d d' : Data E} (hd : d ∈ exprs) (hd' : d' ∈ exprs) (hkey : d.key = d'.key) :
    d.value = d'.value := by
  induction d using Data.request_induction generalizing d' with
  | matrix m_mem m =>
    cases d' <;> simp only [Data.key, reduceCtorEq, Data.Matrix.injEq] at hkey
    next m_mem' m' =>
      obtain ⟨i, hi⟩ := List.mem_iff_getElem?.mp hd
      obtain ⟨j, hj⟩ := List.mem_iff_getElem?.mp hd'
      obtain rfl : i = j := by rw [← h.memory i _ _ hi, ← h.memory j _ _ hj, hkey.1]
      rw [hi] at hj
      cases hj
      rfl
  | scalar m_elem =>
    cases d' <;> simp only [Data.key, reduceCtorEq, Data.Scalar.injEq] at hkey
    rw [hkey]
  | dynamic m_baseData ih =>
    cases d' <;> simp only [Data.key, reduceCtorEq, Data.DynamicData.injEq] at hkey
    next m_baseData' =>
      show m_baseData.value = m_baseData'.value
      exact ih (h.child _ hd m_baseData List.mem_cons_self) (h.child _ hd' m_baseData' List.mem_cons_self) hkey
  | request d a type operands hrequest ih =>
    have hmap := Data.request_key d'
    rw [← hkey, Data.request_key d, hrequest] at hmap
    obtain ⟨⟨a', type', operands'⟩, hrequest', heq⟩ := Option.map_eq_some_iff.mp hmap.symm
    simp only [Prod.mk.injEq, true_and] at heq
    obtain ⟨rfl, hoperands⟩ := heq
    rw [Data.value_of_request hrequest, Data.value_of_request hrequest', mapM_value_of_key hoperands.symm]
    intro x hx y hy hxy
    exact ih x hx (h.operand hd hrequest x hx) (h.operand hd' hrequest' y hy) hxy

end

section

variable {E : Type} [Field E]

namespace Matrix

/-- Matrices of one shape with the same elements. -/
def Same (a b : Matrix E) : Prop :=
  SameShape a b ∧ ∀ i < a.RowNum, ∀ j < a.ColNum, a.val i j = b.val i j

/-- An element of the product of the derivative of a likelihood with the derivatives of the softmax. -/
theorem dot_jacobian (grad : E) (tar pre : Nat → E) {n j : Nat} (hj : j < n) (hpre : ∀ i < n, pre i ≠ 0) :
    sumTo (fun i => grad * (-tar i / pre i) *
      (if i = j then pre i + -1 * pre i * pre j else -1 * pre i * pre j)) n =
      (pre j * sumTo tar n - tar j) * grad := by
  have hterm : ∀ i ∈ Finset.range n, grad * (-tar i / pre i) *
      (if i = j then pre i + -1 * pre i * pre j else -1 * pre i * pre j) =
      grad * pre j * tar i - (if i = j then grad * tar i else 0) := by
    intro i hi
    have hne := hpre i (Finset.mem_range.mp hi)
    split
    · field_simp
      ring
    · field_simp
      ring
  rw [sumTo_eq, sumTo_eq, Finset.sum_congr rfl hterm, Finset.sum_sub_distrib, ← Finset.mul_sum,
    Finset.sum_ite_eq' (Finset.range n) j fun i => grad * tar i, if_pos (Finset.mem_range.mpr hj)]
  ring

theorem sumTo_oneHot {n m_colNum m_hotPos : Nat} (hhot : m_hotPos < n) :
    sumTo (fun j => if 0 * m_colNum + j = m_hotPos then (1 : E) else 0) n = 1 := by
  simp only [Nat.zero_mul, Nat.zero_add]
  rw [sumTo_eq, Finset.sum_ite_eq' (Finset.range n) m_hotPos fun _ => (1 : E),
    if_pos (Finset.mem_range.mpr hhot)]

end Matrix

variable [DecidableEq E] [Elementary E] [Logarithm E] [LT E] [DecidableLT E]

theorem value_nll {v1 v2 v3 v : Principal E}
    (h : (EvalUnitType.TernaryOp .NegativeLogLikelihoodDerivative).value [v1, v2, v3] = some v) :
    ∃ g t p, v1 = .scalar g ∧ v2 = .matrix t ∧ v3 = .matrix p ∧ Matrix.SameShape t p ∧
      v = .matrix ⟨t.RowNum, t.ColNum, fun i j => g * (-t.val i j / p.val i j)⟩ := by
  cases v1 with
  | matrix => cases h
  | scalar g =>
    cases v2 with
    | scalar => cases h
    | matrix t =>
      cases v3 with
      | scalar => cases h
      | matrix p =>
        by_cases hshape : Matrix.SameShape t p
        · simp only [EvalUnitType.value, EvalUnitType.compute, Matrix.NegativeLogLikelihoodDerivative, Matrix.zip,
            if_pos hshape, Outcome.ofOption, Option.some.injEq] at h
          exact ⟨g, t, p, rfl, rfl, rfl, hshape, h.symm⟩
        · simp [EvalUnitType.value, EvalUnitType.compute, Matrix.NegativeLogLikelihoodDerivative, Matrix.zip,
            if_neg hshape, Outcome.ofOption] at h

/-- The two steps of the general case. -/
theorem value_general (p_grad p_sout : Matrix E) (hshape : Matrix.SameShape p_grad p_sout) :
    (EvalUnitType.BinaryOp .VecSoftmaxDerivative).value [.matrix p_grad, .matrix p_sout] =
      if p_sout.RowNum = 1 then
        some (.matrix ⟨1, p_sout.ColNum, fun i j =>
          Matrix.sumTo (fun k => p_grad.val i k * (Matrix.VecSoftmaxJacobian p_sout).val k j) p_sout.ColNum⟩)
      else none := by
  obtain ⟨hrow, hcol⟩ := hshape
  simp only [EvalUnitType.value, EvalUnitType.compute, computeBinary, Matrix.VecSoftmaxDerivative]
  by_cases hone : p_sout.RowNum = 1
  · rw [if_pos ⟨hrow.symm.trans hone, hone, hcol.symm⟩, if_pos hone]
    simp only [Matrix.Dot]
    rw [if_pos (by exact hcol.symm)]
    simp only [Option.map_some, hrow.symm.trans hone, ← hcol]
    rfl
  · rw [if_neg fun h => hone h.2.1, if_neg hone]

theorem value_case1 (g : E) {m_hotPos : Nat} {p_pre : Matrix E} (hrow : p_pre.RowNum = 1) (hhot : m_hotPos < p_pre.ColNum) :
    (EvalUnitType.Case1 m_hotPos).value [.matrix p_pre, .scalar g] = some (.matrix ⟨1, p_pre.ColNum, fun _ i =>
      if i = m_hotPos then p_pre.val 0 i * g - g else p_pre.val 0 i * g⟩) := by
  simp only [EvalUnitType.value, EvalUnitType.compute, Matrix.NllCase1]
  rw [if_pos ⟨hrow, hhot⟩]
  rfl

theorem value_case2 (g : E) {p_tar p_pre : Matrix E} (hshape : Matrix.SameShape p_tar p_pre) (hrow : p_pre.RowNum = 1) :
    EvalUnitType.Case2.value [.matrix p_pre, .scalar g, .matrix p_tar] = some (.matrix ⟨1, p_pre.ColNum, fun _ i =>
      (p_pre.val 0 i * Matrix.sumTo (p_tar.val 0) p_pre.ColNum - p_tar.val 0 i) * g⟩) := by
  obtain ⟨hrow', hcol⟩ := hshape
  simp only [EvalUnitType.value, EvalUnitType.compute, Matrix.NllCase2]
  rw [if_pos ⟨hrow'.symm.trans hrow, hrow, hcol.symm⟩, hcol]
  rfl

/-- With a one-hot target. -/
theorem joined_case1 {a b o : Address} {m_colNum m_hotPos : Nat} {grad softmax_res sout : Data E} {g : E}
    {p_sout : Matrix E} (hsame : softmax_res.eq sout = true) (hgrad : grad.value = some (.scalar g))
    (hsout : sout.value = some (.matrix p_sout)) (hrow : p_sout.RowNum = 1) (hhot : m_hotPos < p_sout.ColNum) :
    (Data.BinaryOp a .VecSoftmaxDerivative (.TernaryOp b .NegativeLogLikelihoodDerivative grad
      (.DynamicData (.OneHotVector o m_colNum m_hotPos)) softmax_res) sout).value =
      some (.matrix ⟨1, p_sout.ColNum, fun _ i =>
        if i = m_hotPos then p_sout.val 0 i * g - g else p_sout.val 0 i * g⟩) := by
  have hrequest : (Data.BinaryOp a .VecSoftmaxDerivative (.TernaryOp b .NegativeLogLikelihoodDerivative grad
      (.DynamicData (.OneHotVector o m_colNum m_hotPos)) softmax_res) sout).request =
      some (a, .Case1 m_hotPos, [sout, grad]) := by
    simp only [Data.request, hsame, if_true]
  rw [Data.value_of_request hrequest, mapM_eq_some.mpr (.cons hsout (.cons hgrad .nil))]
  exact value_case1 g hrow hhot

/-- With any other target. -/
theorem joined_case2 {a b : Address} {grad tar softmax_res sout : Data E} {g : E} {p_tar p_sout : Matrix E}
    (hone : ¬∃ o m_colNum m_hotPos, tar = .DynamicData (.OneHotVector o m_colNum m_hotPos))
    (hsame : softmax_res.eq sout = true) (hgrad : grad.value = some (.scalar g))
    (htar : tar.value = some (.matrix p_tar)) (hsout : sout.value = some (.matrix p_sout)) :
    (Data.BinaryOp a .VecSoftmaxDerivative (.TernaryOp b .NegativeLogLikelihoodDerivative grad tar softmax_res)
      sout).value = EvalUnitType.Case2.value [.matrix p_sout, .scalar g, .matrix p_tar] := by
  have hrequest : (Data.BinaryOp a .VecSoftmaxDerivative (.TernaryOp b .NegativeLogLikelihoodDerivative grad
      tar softmax_res) sout).request = some (a, .Case2, [sout, grad, tar]) := by
    simp only [Data.request, hsame, if_true]
    split
    · exact absurd ⟨_, _, _, rfl⟩ hone
    · rfl
  rw [Data.value_of_request hrequest, mapM_eq_some.mpr (.cons hsout (.cons hgrad (.cons htar .nil)))]
  rfl

/-- **The joined case gives what the general one gives.** Where a program has the derivative of a softmax by the
derivative of a likelihood of the same softmax, either both ways fail an assert or they give one matrix, provided
that no element of the softmax is zero. -/
theorem VecSoftmaxDerivative_joined {cmds : List (Command E)} {a b : Address} {grad tar softmax_res sout : Data E}
    (hd : .BinaryOp a .VecSoftmaxDerivative
      (.TernaryOp b .NegativeLogLikelihoodDerivative grad tar softmax_res) sout ∈ made [] cmds)
    (hsame : softmax_res.eq sout = true) {p_grad : Principal E} {p_sout : Matrix E}
    (hgrad : (Data.TernaryOp b .NegativeLogLikelihoodDerivative grad tar softmax_res).value = some p_grad)
    (hsout : sout.value = some (.matrix p_sout)) (hpre : ∀ i < p_sout.ColNum, p_sout.val 0 i ≠ 0) :
    ((Data.BinaryOp a .VecSoftmaxDerivative
        (.TernaryOp b .NegativeLogLikelihoodDerivative grad tar softmax_res) sout).value = none ∧
      (EvalUnitType.BinaryOp .VecSoftmaxDerivative).value [p_grad, .matrix p_sout] = none) ∨
    ∃ m m', (Data.BinaryOp a .VecSoftmaxDerivative
        (.TernaryOp b .NegativeLogLikelihoodDerivative grad tar softmax_res) sout).value = some (.matrix m) ∧
      (EvalUnitType.BinaryOp .VecSoftmaxDerivative).value [p_grad, .matrix p_sout] = some (.matrix m') ∧
        m.Same m' := by
  have hmade : Made (made [] cmds) := Made.nil.made cmds
  have hsout' : sout ∈ made [] cmds := hmade.child _ hd sout (by simp [Data.children])
  have hnll := hmade.child _ hd (.TernaryOp b .NegativeLogLikelihoodDerivative grad tar softmax_res)
    (by simp [Data.children])
  have hres : softmax_res.value = some (.matrix p_sout) := by
    rw [← hsout]
    exact hmade.value_of_key (hmade.child _ hnll softmax_res (by simp [Data.children])) hsout'
      ((Data.eq_iff ..).mp hsame)
  obtain ⟨v1, hv1, hbind⟩ := Option.bind_eq_some_iff.mp hgrad
  obtain ⟨v2, hv2, hbind⟩ := Option.bind_eq_some_iff.mp hbind
  obtain ⟨v3, hv3, hbind⟩ := Option.bind_eq_some_iff.mp hbind
  obtain ⟨g, t, p, rfl, rfl, rfl, hshape, rfl⟩ := value_nll hbind
  rw [hres] at hv3
  cases hv3
  rw [value_general ⟨t.RowNum, t.ColNum, fun i j => g * (-t.val i j / p_sout.val i j)⟩ p_sout hshape]
  have helement : ∀ j < p_sout.ColNum, Matrix.sumTo (fun k => g * (-t.val 0 k / p_sout.val 0 k) *
      (Matrix.VecSoftmaxJacobian p_sout).val k j) p_sout.ColNum =
      (p_sout.val 0 j * Matrix.sumTo (t.val 0) p_sout.ColNum - t.val 0 j) * g := fun j hj =>
    Matrix.dot_jacobian g (t.val 0) (p_sout.val 0) hj hpre
  by_cases htar : ∃ o m_colNum m_hotPos, tar = .DynamicData (.OneHotVector o m_colNum m_hotPos)
  · obtain ⟨o, m_colNum, m_hotPos, rfl⟩ := htar
    cases hv2
    obtain ⟨hrow, hcol⟩ := hshape
    have htar := hmade.child _ hnll (.DynamicData (.OneHotVector o m_colNum m_hotPos)) (by simp [Data.children])
    have hhot : m_hotPos < p_sout.ColNum := by
      rw [hcol]
      exact hmade.hotPos o m_colNum m_hotPos (hmade.child _ htar _ List.mem_cons_self)
    right
    rw [if_pos hrow]
    refine ⟨_, _, joined_case1 hsame hv1 hsout hrow hhot, rfl, ⟨rfl, rfl⟩, fun i hi j hj => ?_⟩
    obtain rfl : i = 0 := Nat.lt_one_iff.mp hi
    refine Eq.trans ?_ (helement j hj).symm
    show (if j = m_hotPos then p_sout.val 0 j * g - g else p_sout.val 0 j * g) =
      (p_sout.val 0 j * Matrix.sumTo (fun j => if 0 * m_colNum + j = m_hotPos then (1 : E) else 0) p_sout.ColNum -
        if 0 * m_colNum + j = m_hotPos then (1 : E) else 0) * g
    rw [Matrix.sumTo_oneHot hhot, Nat.zero_mul, Nat.zero_add]
    split <;> ring
  · rw [joined_case2 htar hsame hv1 hv2 hsout]
    by_cases hrow : p_sout.RowNum = 1
    · right
      rw [if_pos hrow]
      refine ⟨_, _, value_case2 g hshape hrow, rfl, ⟨rfl, rfl⟩, fun i hi j hj => ?_⟩
      obtain rfl : i = 0 := Nat.lt_one_iff.mp hi
      exact (helement j hj).symm
    · left
      rw [if_neg hrow]
      refine ⟨?_, rfl⟩
      simp only [EvalUnitType.value, EvalUnitType.compute, Matrix.NllCase2]
      rw [if_neg fun h => hrow h.2.1]
      rfl

end

/-- A softmax is not zero anywhere. -/
theorem vecSoftmax_ne_zero {p_v p_sout : Matrix ℝ}
    (h : (EvalUnitType.UnaryOp .VecSoftmax).value [.matrix p_v] = some (.matrix p_sout)) (i : Nat) :
    p_sout.val 0 i ≠ 0 := by
  simp only [EvalUnitType.value, EvalUnitType.compute, computeUnary, Matrix.VecSoftmax] at h
  split_ifs at h with hrow hcol
  cases h
  have hsum : 0 < Matrix.sumTo (fun i => Real.exp (p_v.val 0 i - Matrix.maxElem (p_v.val 0) (p_v.ColNum - 1)))
      p_v.ColNum := by
    rw [Matrix.sumTo_eq]
    exact Finset.sum_pos (fun i _ => Real.exp_pos _) ⟨0, Finset.mem_range.mpr (Nat.pos_of_ne_zero hcol)⟩
  exact div_ne_zero (Real.exp_ne_zero _) hsum.ne'

theorem VecSoftmaxDerivative_joined_softmaxProgram :
    ∃ (nll sout : Data ℝ) (p_grad : Principal ℝ) (p_sout : Matrix ℝ),
      .BinaryOp 6 .VecSoftmaxDerivative nll sout ∈ made [] softmaxProgram ∧
      nll.value = some p_grad ∧ sout.value = some (.matrix p_sout) ∧
      (((Data.BinaryOp 6 .VecSoftmaxDerivative nll sout).value = none ∧
        (EvalUnitType.BinaryOp .VecSoftmaxDerivative).value [p_grad, .matrix p_sout] = none) ∨
      ∃ m m', (Data.BinaryOp 6 .VecSoftmaxDerivative nll sout).value = some (.matrix m) ∧
        (EvalUnitType.BinaryOp .VecSoftmaxDerivative).value [p_grad, .matrix p_sout] = some (.matrix m') ∧
          m.Same m') := by
  let p_v : Matrix ℝ := ⟨1, 2, fun _ j => j⟩
  let sout : Data ℝ := .UnaryOp 1 .VecSoftmax (.Matrix 0 p_v)
  have hd : .BinaryOp 6 .VecSoftmaxDerivative (.TernaryOp 5 .NegativeLogLikelihoodDerivative (.Scalar 1)
      (.DynamicData (.OneHotVector 2 2 1)) sout) sout ∈ made [] softmaxProgram :=
    List.mem_of_getElem? (i := 6) rfl
  obtain ⟨p_sout, hsout⟩ : ∃ p_sout, (EvalUnitType.UnaryOp .VecSoftmax).value [.matrix p_v] = some (.matrix p_sout) :=
    ⟨_, rfl⟩
  have hvalue : sout.value = some (.matrix p_sout) := hsout
  obtain ⟨p_grad, hgrad⟩ : ∃ p_grad, (Data.TernaryOp 5 .NegativeLogLikelihoodDerivative (.Scalar 1)
      (.DynamicData (.OneHotVector 2 2 1)) sout).value = some p_grad := ⟨_, rfl⟩
  exact ⟨_, sout, p_grad, p_sout, hd, hgrad, hvalue,
    VecSoftmaxDerivative_joined hd rfl hgrad hvalue fun i _ => vecSoftmax_ne_zero hsout i⟩

end Perception.MetaNN
