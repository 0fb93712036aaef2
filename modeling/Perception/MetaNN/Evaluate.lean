import Perception.MetaNN.ElementaryLaws
import Perception.MetaNN.Operators

/-!
# What is evaluated

Programs that make data and operators on them, register some and evaluate the plan, in any order. Whatever has a value
gets it, each buffer is written at most once, and only where something that was registered needs it.
-/
namespace Perception.MetaNN

set_option autoImplicit false

open Perception.Lib.WriteOnce Perception.Lib.StateExcept

variable {E : Type} [DecidableEq E]

/-- `IsMatrix` -/
def Data.IsMatrix : Data E → Bool
  | Scalar _ => false
  | BinaryOp _ .NegativeLogLikelihood _ _ => false
  | _ => true

/-- How one more value is made from those that are there, which it copies. -/
inductive Construct (E : Type) where
  | Matrix (m : Matrix E)
  | Scalar (m_elem : E)
  | MakeTrivalMatrix (rowNum colNum : Nat) (m_val : E)
  | ZeroMatrix (m_rowNum m_colNum : Nat)
  | OneHotVector (m_colNum m_hotPos : Nat)
  | MakeDynamic (data : Nat)
  | UnaryOp (tag : UnaryOpTags) (data : Nat)
  | BinaryOp (tag : BinaryOpTags) (data1 data2 : Nat)
  | TernaryOp (tag : TernaryOpTags) (data1 data2 data3 : Nat)

/-- New memory and new buffers get the number of the value. -/
def Construct.build (exprs : List (Data E)) : Construct E → Option (Data E)
  | Matrix m => some (.Matrix exprs.length m)
  | Scalar m_elem => some (.Scalar m_elem)
  | MakeTrivalMatrix rowNum colNum m_val => some (.TrivalMatrix exprs.length rowNum colNum m_val)
  | ZeroMatrix m_rowNum m_colNum => some (.ZeroMatrix exprs.length m_rowNum m_colNum)
  | OneHotVector m_colNum m_hotPos =>
    if m_hotPos < m_colNum then some (.OneHotVector exprs.length m_colNum m_hotPos) else none
  | MakeDynamic data =>
    match exprs[data]? with
    | some (.DynamicData m_baseData) => some (.DynamicData m_baseData)
    | some d => if d.IsMatrix then some (.DynamicData d) else none
    | none => none
  | UnaryOp tag data => do
    let d ← exprs[data]?
    some (.UnaryOp exprs.length tag d)
  | BinaryOp tag data1 data2 => do
    let d1 ← exprs[data1]?
    let d2 ← exprs[data2]?
    some (.BinaryOp exprs.length tag d1 d2)
  | TernaryOp tag data1 data2 data3 => do
    let d1 ← exprs[data1]?
    let d2 ← exprs[data2]?
    let d3 ← exprs[data3]?
    some (.TernaryOp exprs.length tag d1 d2 d3)

inductive Command (E : Type) where
  | construct (c : Construct E)
  | EvalRegister (data : Nat)
  /-- `EvalPlan::Eval` -/
  | Eval

/-- The values that a program has made, and its thread's plan. -/
structure Session (E : Type) where
  exprs : List (Data E) := []
  state : OperState E

section

variable [Zero E] [One E] [Add E] [Sub E] [Mul E] [Neg E] [Div E] [Elementary E] [Logarithm E] [LT E] [DecidableLT E]
variable (order : OperState E → EvalCluster TypeIndex (EvalUnit E) → EvalCluster TypeIndex (EvalUnit E)) (fuel : Nat)

/-- Nothing is evaluated. -/
def Session.new : Session E := { state := { heap := fun _ => { m_data := .matrix ⟨0, 0, fun _ _ => 0⟩ } } }

def Session.step (s : Session E) : Command E → Except Stop (Session E)
  | .construct c =>
    match c.build s.exprs with
    | some d => .ok { s with exprs := s.exprs ++ [d] }
    | none => .error (.fault .assertion)
  | .EvalRegister data =>
    match s.exprs[data]? with
    | some d => .ok { s with state := (d.EvalRegister s.state).2 }
    | none => .error (.fault .illFormed)
  | .Eval => do
    let state ← EvalState.DoLayerEval EvalUnit.Eval order fuel s.state
    .ok { s with state := state }

def Session.run (s : Session E) : List (Command E) → Except Stop (Session E)
  | [] => .ok s
  | c :: cs => do
    let s ← s.step order fuel c
    s.run cs

def Evaluate (data : Data E) (s : OperState E) : Except Stop (Principal E × OperState E) := do
  let (evalHandle, s) := data.EvalRegister s
  let s ← EvalState.DoLayerEval EvalUnit.Eval order fuel s
  let res ← evalHandle.Data s.heap
  .ok (res, s)

/-- Each command finds what it names, and what it registers has a value. -/
def Valid (exprs : List (Data E)) : List (Command E) → Prop
  | [] => True
  | .construct c :: cs => ∃ d, c.build exprs = some d ∧ Valid (exprs ++ [d]) cs
  | .EvalRegister data :: cs => (∃ d, exprs[data]? = some d ∧ d.value.isSome) ∧ Valid exprs cs
  | .Eval :: cs => Valid exprs cs

end

/-- The values at the end of a program. -/
def made (exprs : List (Data E)) : List (Command E) → List (Data E)
  | [] => exprs
  | .construct c :: cs =>
    match c.build exprs with
    | some d => made (exprs ++ [d]) cs
    | none => made exprs cs
  | .EvalRegister _ :: cs => made exprs cs
  | .Eval :: cs => made exprs cs

/-- The buffers that have to be written for a value. -/
inductive Data.Needs : Data E → Address → Prop where
  | self {d : Data E} {a : Address} {type : EvalUnitType E} {operands : List (Data E)}
    (h : d.request = some (a, type, operands)) : Needs d a
  | operand {d x : Data E} {a b : Address} {type : EvalUnitType E} {operands : List (Data E)}
    (h : d.request = some (a, type, operands)) (hx : x ∈ operands) (hb : Needs x b) : Needs d b
  | dynamic {d : Data E} {a : Address} (h : Needs d a) : Needs (.DynamicData d) a

/-- A buffer belongs to one value, a matrix has memory of its own, and what a value holds was made before. -/
structure Made (exprs : List (Data E)) : Prop where
  address : ∀ (i : Nat) (d : Data E), exprs[i]? = some d → ∀ a, d.handle = .evalHandle a → a = i
  memory : ∀ (i : Nat) (m_mem : Address) (m : Matrix E), exprs[i]? = some (.Matrix m_mem m) → m_mem = i
  child : ∀ d ∈ exprs, ∀ x ∈ d.children, x ∈ exprs
  hotPos : ∀ (a : Address) (m_colNum m_hotPos : Nat), .OneHotVector a m_colNum m_hotPos ∈ exprs → m_hotPos < m_colNum

namespace Made

variable {exprs : List (Data E)} {d : Data E}

omit [DecidableEq E] in
theorem nil : Made ([] : List (Data E)) where
  address _ _ h := nomatch h
  memory _ _ _ h := nomatch h
  child _ h := absurd h List.not_mem_nil
  hotPos _ _ _ h := absurd h List.not_mem_nil

omit [DecidableEq E] in
theorem append (h : Made exprs) (haddress : ∀ a, d.handle = .evalHandle a → a = exprs.length)
    (hmemory : ∀ m_mem m, d = .Matrix m_mem m → m_mem = exprs.length)
    (hhotPos : ∀ a m_colNum m_hotPos, d = .OneHotVector a m_colNum m_hotPos → m_hotPos < m_colNum)
    (hchild : ∀ x ∈ d.children, x ∈ exprs) :
    Made (exprs ++ [d]) := by
  constructor
  case address =>
    intro i d' hi a ha
    rcases Nat.lt_trichotomy i exprs.length with hlt | rfl | hgt
    · rw [List.getElem?_append_left hlt] at hi
      exact h.address i d' hi a ha
    · rw [List.getElem?_concat_length] at hi
      cases hi
      exact haddress a ha
    · rw [List.getElem?_eq_none (by rw [List.length_append, List.length_singleton]; exact hgt)] at hi
      cases hi
  case memory =>
    intro i m_mem m hi
    rcases Nat.lt_trichotomy i exprs.length with hlt | rfl | hgt
    · rw [List.getElem?_append_left hlt] at hi
      exact h.memory i m_mem m hi
    · rw [List.getElem?_concat_length] at hi
      exact hmemory m_mem m (Option.some.inj hi)
    · rw [List.getElem?_eq_none (by rw [List.length_append, List.length_singleton]; exact hgt)] at hi
      cases hi
  case child =>
    intro d' hd' x hx
    rw [List.mem_append, List.mem_singleton] at hd' ⊢
    rcases hd' with hd' | rfl
    · exact .inl (h.child d' hd' x hx)
    · exact .inl (hchild x hx)
  case hotPos =>
    intro a m_colNum m_hotPos hd'
    rw [List.mem_append, List.mem_singleton] at hd'
    rcases hd' with hd' | hd'
    · exact h.hotPos a m_colNum m_hotPos hd'
    · exact hhotPos a m_colNum m_hotPos hd'.symm

omit [DecidableEq E] in
theorem build {c : Construct E} (h : Made exprs) (hbuild : c.build exprs = some d) : Made (exprs ++ [d]) := by
  cases c with
  | Matrix m =>
    cases hbuild
    exact h.append (fun _ ha => by cases ha) (fun _ _ heq => by cases heq; rfl) (fun _ _ _ heq => by cases heq)
      (fun _ hx => absurd hx List.not_mem_nil)
  | Scalar m_elem =>
    cases hbuild
    exact h.append (fun _ ha => by cases ha) (fun _ _ heq => by cases heq) (fun _ _ _ heq => by cases heq)
      (fun _ hx => absurd hx List.not_mem_nil)
  | MakeTrivalMatrix rowNum colNum m_val =>
    cases hbuild
    exact h.append (fun _ ha => by cases ha; rfl) (fun _ _ heq => by cases heq) (fun _ _ _ heq => by cases heq)
      (fun _ hx => absurd hx List.not_mem_nil)
  | ZeroMatrix m_rowNum m_colNum =>
    cases hbuild
    exact h.append (fun _ ha => by cases ha; rfl) (fun _ _ heq => by cases heq) (fun _ _ _ heq => by cases heq)
      (fun _ hx => absurd hx List.not_mem_nil)
  | OneHotVector m_colNum m_hotPos =>
    obtain ⟨hlt, rfl⟩ : m_hotPos < m_colNum ∧ Data.OneHotVector exprs.length m_colNum m_hotPos = d := by
      simpa [Construct.build] using hbuild
    exact h.append (fun _ ha => by cases ha; rfl) (fun _ _ heq => by cases heq) (fun _ _ _ heq => by cases heq; exact hlt)
      (fun _ hx => absurd hx List.not_mem_nil)
  | MakeDynamic data =>
    simp only [Construct.build] at hbuild
    split at hbuild
    · next m_baseData hdata =>
      cases hbuild
      exact h.append (fun _ ha => by cases ha) (fun _ _ heq => by cases heq) (fun _ _ _ heq => by cases heq)
        (h.child _ (List.mem_of_getElem? hdata))
    · next d' _ hdata =>
      split at hbuild
      · cases hbuild
        refine h.append (fun _ ha => by cases ha) (fun _ _ heq => by cases heq) (fun _ _ _ heq => by cases heq)
          fun x hx => ?_
        rw [List.mem_singleton.mp hx]
        exact List.mem_of_getElem? hdata
      · cases hbuild
    · cases hbuild
  | UnaryOp tag data =>
    obtain ⟨d1, h1, heq⟩ := Option.bind_eq_some_iff.mp hbuild
    cases heq
    refine h.append (fun _ ha => by cases ha; rfl) (fun _ _ heq => by cases heq) (fun _ _ _ heq => by cases heq)
      fun x hx => ?_
    rw [List.mem_singleton.mp hx]
    exact List.mem_of_getElem? h1
  | BinaryOp tag data1 data2 =>
    obtain ⟨d1, h1, hbuild⟩ := Option.bind_eq_some_iff.mp hbuild
    obtain ⟨d2, h2, heq⟩ := Option.bind_eq_some_iff.mp hbuild
    cases heq
    refine h.append (fun _ ha => by cases ha; rfl) (fun _ _ heq => by cases heq) (fun _ _ _ heq => by cases heq)
      fun x hx => ?_
    simp only [Data.children, List.mem_cons, List.not_mem_nil, or_false] at hx
    rcases hx with rfl | rfl
    · exact List.mem_of_getElem? h1
    · exact List.mem_of_getElem? h2
  | TernaryOp tag data1 data2 data3 =>
    obtain ⟨d1, h1, hbuild⟩ := Option.bind_eq_some_iff.mp hbuild
    obtain ⟨d2, h2, hbuild⟩ := Option.bind_eq_some_iff.mp hbuild
    obtain ⟨d3, h3, heq⟩ := Option.bind_eq_some_iff.mp hbuild
    cases heq
    refine h.append (fun _ ha => by cases ha; rfl) (fun _ _ heq => by cases heq) (fun _ _ _ heq => by cases heq)
      fun x hx => ?_
    simp only [Data.children, List.mem_cons, List.not_mem_nil, or_false] at hx
    rcases hx with rfl | rfl | rfl
    · exact List.mem_of_getElem? h1
    · exact List.mem_of_getElem? h2
    · exact List.mem_of_getElem? h3

theorem operand (h : Made exprs) (hd : d ∈ exprs) {a : Address} {type : EvalUnitType E} {operands : List (Data E)}
    (hrequest : d.request = some (a, type, operands)) : ∀ x ∈ operands, x ∈ exprs := by
  intro x hx
  rcases Data.operand_child hrequest hx with hx | ⟨y, hy, hx⟩
  · exact h.child d hd x hx
  · exact h.child y (h.child d hd y hy) x hx

omit [DecidableEq E] in
theorem made (h : Made exprs) (cmds : List (Command E)) : Made (made exprs cmds) := by
  induction cmds generalizing exprs with
  | nil => exact h
  | cons c cs ih =>
    cases c with
    | construct c =>
      unfold MetaNN.made
      split
      · next d hbuild => exact ih (h.build hbuild)
      · exact ih h
    | EvalRegister => exact ih h
    | Eval => exact ih h

end Made

omit [DecidableEq E] in
theorem prefix_made (exprs : List (Data E)) (cmds : List (Command E)) : exprs <+: made exprs cmds := by
  induction cmds generalizing exprs with
  | nil => exact List.prefix_refl exprs
  | cons c cs ih =>
    cases c with
    | construct c =>
      unfold made
      split
      · next d hbuild => exact (List.prefix_append exprs [d]).trans (ih _)
      · exact ih exprs
    | EvalRegister => exact ih exprs
    | Eval => exact ih exprs

section

variable [Zero E] [One E] [Add E] [Sub E] [Mul E] [Neg E] [Div E] [Elementary E] [Logarithm E] [LT E] [DecidableLT E]

/-- What the buffers have to become. -/
def valueAt (exprs : List (Data E)) (a : Address) : Option (Principal E) := exprs[a]?.bind Data.value

theorem Made.value_handle {exprs : List (Data E)} (h : Made exprs) (d : Data E) (hd : d ∈ exprs) :
    d.handle.value (valueAt exprs) = d.value := by
  have heval : ∀ a, d.handle = .evalHandle a → valueAt exprs a = d.value := by
    intro a ha
    obtain ⟨i, hi⟩ := List.mem_iff_getElem?.mp hd
    rw [h.address i d hi a ha, valueAt, hi]
    rfl
  induction d with
  | Matrix => rfl
  | Scalar => rfl
  | DynamicData d ih =>
    have hd' := h.child _ hd d List.mem_cons_self
    refine ih hd' fun a ha => ?_
    obtain ⟨i, hi⟩ := List.mem_iff_getElem?.mp hd'
    rw [h.address i d hi a ha, valueAt, hi]
    rfl
  | _ => exact heval _ rfl

/-- What the unit writes in the end. -/
def EvalUnit.value (val : Address → Option (Principal E)) (unit : EvalUnit E) : Option (Principal E) :=
  (unit.m_oper.mapM (ConstEvalHandle.value val)).bind unit.type.value

def unitSpec (val : Address → Option (Principal E)) : UnitSpec (EvalUnit E) where
  out unit := unit.m_evalOutput
  deps unit := unit.m_oper.filterMap ConstEvalHandle.address?
  stages unit := if unit.type = .BinaryOp .VecSoftmaxDerivative then 1 else 0
  Fits unit := ∃ v, val unit.m_evalOutput = some v ∧ unit.value val = some v

theorem unitSpec_sound (val : Address → Option (Principal E)) :
    (unitSpec val).Sound (ι := TypeIndex) val EvalUnit.Eval := by
  rintro unit s ⟨v, hout, hval⟩ hdeps hpending
  obtain ⟨vs, hvs, htype⟩ := Option.bind_eq_some_iff.mp hval
  change evaluated s.heap unit.m_evalOutput = none at hpending
  have hready : ∀ handle ∈ unit.m_oper, handle.Ready val (evaluated s.heap) := fun handle hmem a ha =>
    hdeps a (List.mem_filterMap.mpr ⟨handle, hmem, ha⟩)
  have hread := mapM_data_of_ready hready hvs
  unfold EvalUnitType.value at htype
  split at htype
  · next data hcompute =>
    cases htype
    obtain ⟨heap₁, heap₂, halloc, hset, heval⟩ := evaluated_setEval v hpending
    refine .inl ⟨heap₂, ?_, heval ▸ Fills.update _ hout⟩
    simp only [EvalUnit.Eval, hread, hcompute, bind, Except.bind]
    rw [halloc]
    simp only
    rw [hset]
  · next tmp hcompute =>
    obtain ⟨hunit, p_grad, p_sout, rfl⟩ := EvalUnitType.compute_eq_register hcompute
    obtain ⟨handle1, rest, hgrad, hrest, hoper⟩ := List.forall₂_cons_right_iff.mp (mapM_eq_some.mp hvs)
    obtain ⟨handle2, rest, -, hnil, rfl⟩ := List.forall₂_cons_right_iff.mp hrest
    obtain rfl := List.forall₂_nil_right_iff.mp hnil
    have hdot : computeBinary p_grad tmp .Dot = .SetEval v := by
      obtain ⟨res, hres, rfl⟩ := Option.map_eq_some_iff.mp htype
      show Outcome.ofOption (p_grad.Dot tmp) = _
      rw [hres]
      rfl
    refine .inr ⟨⟨.BinaryOp .Dot, [handle1, .constData (.matrix tmp)], unit.m_evalOutput⟩,
      ⟨.BinaryOp .Dot, [handle1.type, .constData]⟩, [handle1.DataPtr, .constData], ⟨v, hout, ?_⟩, rfl, ?_, ?_, ?_, ?_⟩
    · rw [EvalUnit.value, mapM_eq_some.mpr (.cons hgrad (.cons rfl .nil))]
      simp only [Option.bind_some, EvalUnitType.value, EvalUnitType.compute, hdot]
    · simp [unitSpec, hunit]
    · intro b hb
      obtain ⟨handle, hmem, ha⟩ := List.mem_filterMap.mp hb
      rcases List.mem_cons.mp hmem with rfl | hmem
      · exact List.mem_filterMap.mpr ⟨handle, hoper ▸ List.mem_cons_self, ha⟩
      · rw [List.mem_singleton.mp hmem] at ha
        cases ha
    · exact fun b hb => ConstEvalHandle.info_mem hb
    · unfold EvalUnit.Eval
      rw [hread, except_ok_bind, hcompute]
      simp only [hoper]
      rfl
  · cases htype

/-- What holds between the commands of a program. -/
structure Inv (exprs : List (Data E)) (s : OperState E) : Prop where
  outer : s.outer = []
  plan : Planned (unitSpec (valueAt exprs)) (valueAt exprs) 2 (evaluated s.heap) s.curLayer
  settled : ∀ a, evaluated s.heap a ≠ none → Settled (valueAt exprs) (evaluated s.heap) a

/-- From `s` to `s'` the plan has taken up `ds`. -/
structure Registered (exprs ds : List (Data E)) (s s' : OperState E) : Prop where
  inv : Inv exprs s'
  heap : s'.heap = s.heap
  keeps : s.curLayer.outputs ⊆ s'.curLayer.outputs
  needed : ∀ a ∈ s'.curLayer.outputs, a ∈ s.curLayer.outputs ∨ ∃ d ∈ ds, d.Needs a
  ready : ∀ d ∈ ds, ∀ a ∈ d.handle.address?,
    Settled (valueAt exprs) (evaluated s.heap) a ∨ a ∈ s'.curLayer.outputs

variable {exprs ds : List (Data E)} {d : Data E} {s s₁ s₂ : OperState E}

theorem Registered.nil (h : Inv exprs s) : Registered exprs [] s s where
  inv := h
  heap := rfl
  keeps := subset_rfl
  needed _ ha := .inl ha
  ready _ hd := absurd hd List.not_mem_nil

theorem Registered.cons (h : Registered exprs [d] s s₁) (h' : Registered exprs ds s₁ s₂) :
    Registered exprs (d :: ds) s s₂ where
  inv := h'.inv
  heap := h'.heap.trans h.heap
  keeps := h.keeps.trans h'.keeps
  needed a ha := by
    rcases h'.needed a ha with ha | ⟨x, hx, hneeds⟩
    · exact (h.needed a ha).imp_right fun ⟨x, hx, hneeds⟩ =>
        ⟨x, List.mem_singleton.mp hx ▸ List.mem_cons_self, hneeds⟩
    · exact .inr ⟨x, List.mem_cons_of_mem _ hx, hneeds⟩
  ready x hx a ha := by
    rcases List.mem_cons.mp hx with rfl | hx
    · exact (h.ready x List.mem_cons_self a ha).imp_right fun hin => h'.keeps hin
    · rw [← h.heap]
      exact h'.ready x hx a ha

theorem Registered.all (hds : ∀ x ∈ ds, ∀ s, Inv exprs s → Registered exprs [x] s (x.EvalRegister s).2)
    (h : Inv exprs s) : Registered exprs ds s (Data.registerAll ds s) := by
  induction ds generalizing s with
  | nil => exact .nil h
  | cons d ds ih =>
    have hd := hds d List.mem_cons_self s h
    exact hd.cons (ih (fun x hx => hds x (List.mem_cons_of_mem _ hx)) hd.inv)

theorem Made.mapM_handle (h : Made exprs) (hds : ∀ x ∈ ds, x ∈ exprs) :
    (ds.map Data.handle).mapM (ConstEvalHandle.value (valueAt exprs)) = ds.mapM Data.value := by
  induction ds with
  | nil => rfl
  | cons d ds ih =>
    rw [List.map_cons, List.mapM_cons, List.mapM_cons, h.value_handle d (hds d List.mem_cons_self),
      ih fun x hx => hds x (List.mem_cons_of_mem _ hx)]

theorem operand_isSome {vs : List (Principal E)} (h : ds.mapM Data.value = some vs) : ∀ x ∈ ds, x.value.isSome := by
  intro x hx
  rw [mapM_eq_some] at h
  induction h with
  | nil => exact absurd hx List.not_mem_nil
  | cons hv _ ih =>
    rcases List.mem_cons.mp hx with rfl | hx
    · exact Option.isSome_of_eq_some hv
    · exact ih hx

/-- A value is registered after what it needs. -/
theorem EvalRegister_spec (hmade : Made exprs) (d : Data E) (hd : d ∈ exprs) (hvalue : d.value.isSome)
    (h : Inv exprs s) : Registered exprs [d] s (d.EvalRegister s).2 := by
  induction d using Data.request_induction generalizing s with
  | matrix m_mem m =>
    refine ⟨h, rfl, subset_rfl, fun _ ha => .inl ha, fun x hx a ha => ?_⟩
    rw [List.mem_singleton.mp hx] at ha
    cases ha
  | scalar m_elem =>
    refine ⟨h, rfl, subset_rfl, fun _ ha => .inl ha, fun x hx a ha => ?_⟩
    rw [List.mem_singleton.mp hx] at ha
    cases ha
  | dynamic m_baseData ih =>
    have hbase := ih (hmade.child _ hd _ List.mem_cons_self) hvalue h
    refine ⟨hbase.inv, hbase.heap, hbase.keeps, fun a ha => ?_, fun x hx a ha => ?_⟩
    · refine (hbase.needed a ha).imp_right ?_
      rintro ⟨x, hx, hneeds⟩
      exact ⟨_, List.mem_cons_self, .dynamic (List.mem_singleton.mp hx ▸ hneeds)⟩
    · rw [List.mem_singleton.mp hx] at ha
      exact hbase.ready m_baseData List.mem_cons_self a ha
  | request d a type operands hrequest ih =>
    obtain ⟨v, hv⟩ := Option.isSome_iff_exists.mp hvalue
    have hbind := hv
    rw [Data.value_of_request hrequest] at hbind
    obtain ⟨vs, hvs, htype⟩ := Option.bind_eq_some_iff.mp hbind
    have hoperands := hmade.operand hd hrequest
    have haddress : ∀ b, b ∈ d.handle.address? ↔ b = a := by
      intro b
      rw [Data.request_handle hrequest]
      simp [ConstEvalHandle.address?, eq_comm]
    rw [Data.EvalRegister_of_request hrequest]
    split
    · next heval =>
      refine ⟨h, rfl, subset_rfl, fun _ ha => .inl ha, fun x hx b hb => .inl (h.settled b ?_)⟩
      rw [List.mem_singleton.mp hx, haddress] at hb
      rw [hb]
      exact isEvaluated_iff.mp heval
    · next hpending =>
      have hall := Registered.all (fun x hx s hs => ih x hx (hoperands x hx) (operand_isSome hvs x hx) hs) h
      have hneeded : ∀ b ∈ (Data.registerAll operands s).curLayer.outputs,
          b ∈ s.curLayer.outputs ∨ ∃ x ∈ [d], x.Needs b := by
        intro b hb
        refine (hall.needed b hb).imp_right ?_
        rintro ⟨x, hx, hneeds⟩
        exact ⟨d, List.mem_cons_self, .operand hrequest hx hneeds⟩
      by_cases hin : a ∈ (Data.registerAll operands s).curLayer.outputs
      · have hsame : (Data.registerAll operands s).registerUnit ⟨type, operands.map Data.handle, a⟩ =
            Data.registerAll operands s := by
          unfold EvalState.registerUnit EvalState.Register
          rw [EvalLayer.EvalRegister_of_registered _ _ _ hin]
        rw [hsame]
        refine ⟨hall.inv, hall.heap, hall.keeps, hneeded, fun x hx b hb => .inr ?_⟩
        rw [List.mem_singleton.mp hx, haddress] at hb
        exact hb ▸ hin
      · obtain ⟨i, hi⟩ := List.mem_iff_getElem?.mp hd
        have hat : valueAt exprs a = some v := by
          rw [hmade.address i d hi a (Data.request_handle hrequest), valueAt, hi]
          exact hv
        have hnone : evaluated (Data.registerAll operands s).heap a = none := by
          rw [hall.heap]
          by_contra hne
          exact hpending (isEvaluated_iff.mpr hne)
        have hreads : ∀ b ∈ (operands.map Data.handle).filterMap ConstEvalHandle.address?,
            Settled (valueAt exprs) (evaluated (Data.registerAll operands s).heap) b ∨
              b ∈ (Data.registerAll operands s).curLayer.outputs := by
          intro b hb
          obtain ⟨handle, hmem, hb⟩ := List.mem_filterMap.mp hb
          obtain ⟨x, hx, rfl⟩ := List.mem_map.mp hmem
          rw [hall.heap]
          exact hall.ready x hx b hb
        have hfits : EvalUnit.value (valueAt exprs) ⟨type, operands.map Data.handle, a⟩ = some v := by
          rw [EvalUnit.value, hmade.mapM_handle hoperands, hvs]
          exact htype
        have hstages : (if type = .BinaryOp .VecSoftmaxDerivative then 1 else 0) < 2 := by
          split <;> omega
        obtain ⟨hplan, houts⟩ := hall.inv.plan.EvalRegister
          ⟨type.erase, (operands.map Data.handle).map ConstEvalHandle.type⟩ ⟨type, operands.map Data.handle, a⟩
          ((operands.map Data.handle).map ConstEvalHandle.DataPtr) hin hnone ⟨v, hat, hfits⟩ hstages
          (fun b hb => ConstEvalHandle.info_mem hb) hreads
        change ((Data.registerAll operands s).registerUnit ⟨type, operands.map Data.handle, a⟩).curLayer.outputs =
          insert a (Data.registerAll operands s).curLayer.outputs at houts
        refine ⟨⟨hall.inv.outer, hplan, hall.inv.settled⟩, hall.heap, ?_, ?_, fun x hx b hb => .inr ?_⟩
        · rw [houts]
          exact hall.keeps.trans (Set.subset_insert ..)
        · intro b hb
          rw [houts] at hb
          rcases hb with rfl | hb
          · exact .inr ⟨d, List.mem_cons_self, .self hrequest⟩
          · exact hneeded b hb
        · rw [List.mem_singleton.mp hx, haddress] at hb
          rw [houts, hb]
          exact Set.mem_insert ..

variable {order : OperState E → EvalCluster TypeIndex (EvalUnit E) → EvalCluster TypeIndex (EvalUnit E)} {fuel : Nat}
  {asked : Data E → Prop}

/-- What was asked for is settled or waits, and nothing else is or does. -/
structure Ran (exprs : List (Data E)) (asked : Data E → Prop) (s : OperState E) : Prop where
  inv : Inv exprs s
  ready : ∀ x, asked x → ∀ a ∈ x.handle.address?,
    Settled (valueAt exprs) (evaluated s.heap) a ∨ a ∈ s.curLayer.outputs
  needed : ∀ a, evaluated s.heap a ≠ none ∨ a ∈ s.curLayer.outputs → ∃ x, asked x ∧ x.Needs a

theorem Ran.congr {asked' : Data E → Prop} (h : Ran exprs asked s) (heq : ∀ x, asked x ↔ asked' x) :
    Ran exprs asked' s := by
  obtain rfl : asked = asked' := funext fun x => propext (heq x)
  exact h

theorem Ran.register (h : Ran exprs asked s) (hmade : Made exprs) (hd : d ∈ exprs) (hvalue : d.value.isSome) :
    Ran exprs (fun x => asked x ∨ x = d) (d.EvalRegister s).2 := by
  have hreg := EvalRegister_spec hmade d hd hvalue h.inv
  refine ⟨hreg.inv, ?_, ?_⟩
  · rintro x (hx | rfl) a ha
    · rw [hreg.heap]
      exact (h.ready x hx a ha).imp_right fun hin => hreg.keeps hin
    · rw [hreg.heap]
      exact hreg.ready x List.mem_cons_self a ha
  · intro a ha
    rw [hreg.heap] at ha
    have hold : evaluated s.heap a ≠ none ∨ a ∈ s.curLayer.outputs → ∃ x, (asked x ∨ x = d) ∧ x.Needs a := fun ha => by
      obtain ⟨x, hx, hneeds⟩ := h.needed a ha
      exact ⟨x, .inl hx, hneeds⟩
    rcases ha with ha | ha
    · exact hold (.inl ha)
    · rcases hreg.needed a ha with ha | ⟨x, hx, hneeds⟩
      · exact hold (.inr ha)
      · exact ⟨x, .inr (List.mem_singleton.mp hx), hneeds⟩

/-- After `Eval` nothing waits, and what had been evaluated before is as it was. -/
theorem Ran.eval (h : Ran exprs asked s) (horder : ∀ s ec, (order s ec).Perm ec) (hfuel : 2 ≤ fuel) :
    ∃ s', EvalState.DoLayerEval EvalUnit.Eval order fuel s = .ok s' ∧ s'.curLayer = {} ∧ Ran exprs asked s' ∧
      ∀ a w, evaluated s.heap a = some w → evaluated s'.heap a = some w := by
  obtain ⟨s', hrun, hcur, houter, hfills⟩ := DoLayerEval_spec (unitSpec_sound (valueAt exprs)) horder fuel
    (by omega) (h.inv.plan.mono hfuel)
  have hsettled : ∀ a, evaluated s'.heap a ≠ none → Settled (valueAt exprs) (evaluated s'.heap) a := by
    intro a ha
    by_cases hin : a ∈ s.curLayer.outputs
    · exact hfills.written a hin
    · rw [hfills.frame a hin] at ha
      exact hfills.settled (h.inv.settled a ha)
  refine ⟨s', hrun, hcur, ⟨⟨houter.trans h.inv.outer, hcur ▸ Planned.empty, hsettled⟩, ?_, ?_⟩, ?_⟩
  · intro x hx a ha
    rcases h.ready x hx a ha with hs | hin
    · exact .inl (hfills.settled hs)
    · exact .inl (hfills.written a hin)
  · rintro a (ha | ha)
    · by_cases hin : a ∈ s.curLayer.outputs
      · exact h.needed a (.inr hin)
      · rw [hfills.frame a hin] at ha
        exact h.needed a (.inl ha)
    · rw [hcur] at ha
      exact absurd ha Bool.false_ne_true
  · intro a w hw
    have hne : evaluated s.heap a ≠ none := hw ▸ Option.some_ne_none w
    rw [hfills.frame a fun hin => ?_, hw]
    obtain ⟨depth, hdepth⟩ := Option.isSome_iff_exists.mp hin
    exact hne (h.inv.plan.pending a depth hdepth)

theorem run_of_step {s s₁ : Session E} {c : Command E} (h : s.step order fuel c = .ok s₁) (cs : List (Command E)) :
    s.run order fuel (c :: cs) = s₁.run order fuel cs := by
  show (s.step order fuel c >>= fun s => s.run order fuel cs) = _
  rw [h]
  rfl

/-- A valid program runs to its end. -/
theorem run_spec (horder : ∀ s ec, (order s ec).Perm ec) (hfuel : 2 ≤ fuel) {s : Session E} (cmds : List (Command E))
    (hvalid : Valid s.exprs cmds) (hmade : Made s.exprs) (h : Ran (made s.exprs cmds) asked s.state) :
    ∃ s', s.run order fuel cmds = .ok s' ∧ s'.exprs = made s.exprs cmds ∧
      Ran s'.exprs (fun x => asked x ∨ ∃ i, .EvalRegister i ∈ cmds ∧ s'.exprs[i]? = some x) s'.state := by
  induction cmds generalizing s asked with
  | nil => exact ⟨s, rfl, rfl, h.congr fun x => by simp⟩
  | cons c cs ih =>
    cases c with
    | construct c =>
      obtain ⟨d, hbuild, hvalid⟩ := hvalid
      have hnext : made s.exprs (.construct c :: cs) = made (s.exprs ++ [d]) cs := by
        rw [made, hbuild]
      rw [hnext] at h ⊢
      obtain ⟨s', hrun, hexprs, hran⟩ := ih (s := { s with exprs := s.exprs ++ [d] }) hvalid (hmade.build hbuild) h
      refine ⟨s', ?_, hexprs, hran.congr fun x => by simp⟩
      rw [run_of_step (by rw [Session.step, hbuild]), hrun]
    | EvalRegister data =>
      obtain ⟨⟨d, hdata, hvalue⟩, hvalid⟩ := hvalid
      have hat : (made s.exprs cs)[data]? = some d := by
        obtain ⟨hlt, -⟩ := List.getElem?_eq_some_iff.mp hdata
        obtain ⟨rest, hrest⟩ := prefix_made s.exprs cs
        rw [← hrest, List.getElem?_append_left hlt, hdata]
      have hmade' : Made (made s.exprs cs) := hmade.made cs
      obtain ⟨s', hrun, hexprs, hran⟩ := ih (s := { s with state := (d.EvalRegister s.state).2 }) hvalid hmade
        (Ran.register h hmade' (List.mem_of_getElem? hat) hvalue)
      refine ⟨s', ?_, hexprs, hran.congr fun x => ?_⟩
      · rw [run_of_step (by rw [Session.step, hdata]), hrun]
      · rw [← hexprs] at hat
        constructor
        · rintro ((hx | rfl) | ⟨i, hi, hx⟩)
          · exact .inl hx
          · exact .inr ⟨data, List.mem_cons_self, hat⟩
          · exact .inr ⟨i, List.mem_cons_of_mem _ hi, hx⟩
        · rintro (hx | ⟨i, hi, hx⟩)
          · exact .inl (.inl hx)
          · rcases List.mem_cons.mp hi with heq | hi
            · cases heq
              rw [hat] at hx
              exact .inl (.inr (Option.some.inj hx).symm)
            · exact .inr ⟨i, hi, hx⟩
    | Eval =>
      obtain ⟨state, heval, -, hran, -⟩ := h.eval horder hfuel
      obtain ⟨s', hrun, hexprs, hran⟩ := ih (s := { s with state := state }) hvalid hmade hran
      refine ⟨s', ?_, hexprs, hran.congr fun x => by simp⟩
      rw [run_of_step (by rw [Session.step, heval]; rfl), hrun]

theorem ran_new (exprs : List (Data E)) : Ran exprs (fun _ => False) Session.new.state where
  inv := ⟨rfl, Planned.empty, fun _ ha => absurd rfl ha⟩
  ready _ hx := hx.elim
  needed _ ha := ha.elim (fun ha => absurd rfl ha) fun ha => absurd ha Bool.false_ne_true

/-- **`Evaluate` gives what the data stand for.** A program may make values from others, register some and evaluate
the plan, in any order, and the hash tables may list their groups in any order. Then `Evaluate` of a value that has
one throws nothing and returns it. What was evaluated stays as it is, all that was registered has its value, and
no buffer is written that neither needs. -/
theorem Evaluate_eq_value (horder : ∀ s ec, (order s ec).Perm ec) (hfuel : 2 ≤ fuel) {cmds : List (Command E)}
    (hvalid : Valid [] cmds) :
    ∃ s : Session E, Session.new.run order fuel cmds = .ok s ∧ ∀ d ∈ s.exprs, ∀ v, d.value = some v →
      ∃ s', Evaluate order fuel d s.state = .ok (v, s') ∧ s'.curLayer = {} ∧ s'.outer = [] ∧
        (∀ a w, evaluated s.state.heap a = some w → evaluated s'.heap a = some w) ∧
        (∀ i x w, .EvalRegister i ∈ cmds → s.exprs[i]? = some x → x.value = some w →
          x.handle.Data s'.heap = .ok w) ∧
        ∀ a, evaluated s'.heap a ≠ none →
          d.Needs a ∨ ∃ i x, .EvalRegister i ∈ cmds ∧ s.exprs[i]? = some x ∧ x.Needs a := by
  obtain ⟨s, hrun, hexprs, hran⟩ := run_spec (s := Session.new) horder hfuel cmds hvalid Made.nil (ran_new _)
  have hmade : Made s.exprs := hexprs ▸ Made.nil.made cmds
  refine ⟨s, hrun, fun d hd v hv => ?_⟩
  have hreg := hran.register hmade hd (Option.isSome_of_eq_some hv)
  obtain ⟨s', heval, hcur, hran', hkeep⟩ := hreg.eval horder hfuel
  have hdata : ∀ x ∈ s.exprs, ((False ∨ ∃ i, .EvalRegister i ∈ cmds ∧ s.exprs[i]? = some x) ∨ x = d) →
      ∀ w, x.value = some w → x.handle.Data s'.heap = .ok w := by
    intro x hx hasked w hw
    refine ConstEvalHandle.data_of_ready (fun a ha => ?_) ((hmade.value_handle x hx).trans hw)
    refine (hran'.ready x hasked a ha).resolve_right ?_
    rw [hcur]
    exact Bool.false_ne_true
  refine ⟨s', ?_, hcur, hran'.inv.outer, ?_, ?_, ?_⟩
  · show (EvalState.DoLayerEval EvalUnit.Eval order fuel (d.EvalRegister s.state).2 >>= fun s₁ =>
      (d.EvalRegister s.state).1.Data s₁.heap >>= fun res => .ok (res, s₁)) = _
    rw [heval, except_ok_bind, Data.EvalRegister_fst, hdata d hd (.inr rfl) v hv]
    rfl
  · intro a w hw
    refine hkeep a w ?_
    rw [(EvalRegister_spec hmade d hd (Option.isSome_of_eq_some hv) hran.inv).heap]
    exact hw
  · intro i x w hi hx hw
    exact hdata x (List.mem_of_getElem? hx) (.inl (.inr ⟨i, hi, hx⟩)) w hw
  · intro a ha
    obtain ⟨x, (hfalse | ⟨i, hi, hx⟩) | rfl, hneeds⟩ := hran'.needed a (.inl ha)
    · exact hfalse.elim
    · exact .inr ⟨i, x, hi, hx, hneeds⟩
    · exact .inl hneeds

end

noncomputable instance : Logarithm ℝ where
  log := Real.log

/-- A softmax, the derivative of its likelihood by what it was applied to, and another derivative of it, which takes
two units. -/
def softmaxProgram : List (Command ℝ) :=
  [.construct (.Matrix ⟨1, 2, fun _ j => j⟩), .construct (.UnaryOp .VecSoftmax 0), .EvalRegister 1,
    .construct (.OneHotVector 2 1), .construct (.MakeDynamic 2), .construct (.Scalar 1),
    .construct (.TernaryOp .NegativeLogLikelihoodDerivative 4 3 1), .construct (.BinaryOp .VecSoftmaxDerivative 5 1),
    .EvalRegister 6, .Eval, .construct (.BinaryOp .VecSoftmaxDerivative 0 1), .EvalRegister 5, .EvalRegister 7]

theorem valid_softmaxProgram : Valid [] softmaxProgram := by
  refine ⟨_, rfl, _, rfl, ⟨_, rfl, rfl⟩, _, rfl, _, rfl, _, rfl, _, rfl, _, rfl, ⟨_, rfl, ?_⟩, _, rfl, ⟨_, rfl, ?_⟩,
    ⟨_, rfl, ?_⟩, trivial⟩
  · rfl
  · rfl
  · rfl

theorem Evaluate_softmaxProgram :
    ∃ s : Session ℝ, Session.new.run (fun _ ec => ec.reverse) 2 softmaxProgram = .ok s ∧
      ∀ d ∈ s.exprs, ∀ v, d.value = some v → ∃ s', Evaluate (fun _ ec => ec.reverse) 2 d s.state = .ok (v, s') := by
  obtain ⟨s, hrun, h⟩ := Evaluate_eq_value (fun _ ec => List.reverse_perm ec) (le_refl 2) valid_softmaxProgram
  refine ⟨s, hrun, fun d hd v hv => ?_⟩
  obtain ⟨s', heval, -⟩ := h d hd v hv
  exact ⟨s', heval⟩

end Perception.MetaNN
