import Mathlib.Data.List.Nodup
import Mathlib.Data.List.Perm.Basic
import Perception.Lib.StateExcept
import Perception.Lib.WriteOnce
import Perception.MetaNN.ComposeKernel

/-!
# The evaluation plan

What has to be evaluated is registered and put behind its operands; `Eval` then goes through the depths. A
unit can register another one while it runs. It waits in a layer of its own, which is evaluated before the next
depth is.
-/
namespace Perception.MetaNN

set_option autoImplicit false

open Perception.Lib.WriteOnce Perception.Lib.StateExcept

/-- Where the record lies that the copies of a buffer share. -/
abbrev Address := Nat

/-- A `const void*`: null, into a handle that holds its data, or to the record of a buffer. -/
inductive VoidPtr where
  | nullptr
  | constData
  | info (a : Address)
  deriving DecidableEq

structure DataWithEvalInfo (α : Type) where
  m_data : α
  m_eval : Bool := false

abbrev Heap (α : Type) := Address → DataWithEvalInfo α

/-- What ends an evaluation early: a fault, or more layers over one another than are followed. -/
inductive Stop where
  | fault (f : Fault)
  | fuel
  deriving DecidableEq

variable {α : Type}

namespace EvalHandle

def IsEvaluated (heap : Heap α) (a : Address) : Bool := (heap a).m_eval

/-- `Allocate`, with what is then written over `MutableData`. -/
def Allocate (data : α) (a : Address) (heap : Heap α) : Except Stop (Heap α) :=
  if IsEvaluated heap a then .error (.fault (.runtime_error "Data is already evaluated."))
  else .ok (Function.update heap a { heap a with m_data := data })

def SetEval (a : Address) (heap : Heap α) : Except Stop (Heap α) :=
  if IsEvaluated heap a then .error (.fault (.runtime_error "Data is already evaluated."))
  else .ok (Function.update heap a { heap a with m_eval := true })

def Data (heap : Heap α) (a : Address) : Except Stop α :=
  if IsEvaluated heap a then .ok (heap a).m_data
  else .error (.fault (.runtime_error "Data is not evaluated."))

end EvalHandle

/-- What `EvalRegister` returns: immediate data, the handle of a buffer, or one behind `DynamicConstEvalHandle`. -/
inductive ConstEvalHandle (α : Type) where
  | constData (m_constData : α)
  | evalHandle (a : Address)
  | dynamic (m_data : ConstEvalHandle α)

namespace ConstEvalHandle

def Data (heap : Heap α) : ConstEvalHandle α → Except Stop α
  | constData data => .ok data
  | evalHandle a => EvalHandle.Data heap a
  | dynamic handle => handle.Data heap

def DataPtr : ConstEvalHandle α → VoidPtr
  | constData _ => .constData
  | evalHandle a => .info a
  | dynamic handle => handle.DataPtr

/-- The buffer that the handle reads, if it reads one. -/
def address? : ConstEvalHandle α → Option Address
  | constData _ => none
  | evalHandle a => some a
  | dynamic handle => handle.address?

theorem DataPtr_of_address {handle : ConstEvalHandle α} {a : Address} (h : handle.address? = some a) :
    handle.DataPtr = .info a := by
  induction handle with
  | constData => cases h
  | evalHandle =>
    cases h
    rfl
  | dynamic handle ih => exact ih h

/-- The buffers that handles read are among their pointers. -/
theorem info_mem {handles : List (ConstEvalHandle α)} {a : Address} (h : a ∈ handles.filterMap address?) :
    .info a ∈ handles.map DataPtr := by
  obtain ⟨handle, hmem, ha⟩ := List.mem_filterMap.mp h
  exact DataPtr_of_address ha ▸ List.mem_map_of_mem hmem

end ConstEvalHandle

/-- Units by the types of their groups. -/
abbrev EvalCluster (ι U : Type) := List (ι × List U)

variable {ι U : Type}

namespace EvalCluster

def units (ec : EvalCluster ι U) : List U := ec.flatMap Prod.snd

/-- The unit joins its group, which is made when it is the first one. -/
def Merge [DecidableEq ι] (typeIndex : ι) (unit : U) : EvalCluster ι U → EvalCluster ι U
  | [] => [(typeIndex, [unit])]
  | (i, us) :: ec => if i = typeIndex then (i, us ++ [unit]) :: ec else (i, us) :: Merge typeIndex unit ec

end EvalCluster

structure EvalLayer (ι U : Type) where
  m_evalSeq : List (EvalCluster ι U) := []
  m_outputs : VoidPtr → Option Nat := fun _ => none

namespace EvalLayer

def Empty (layer : EvalLayer ι U) : Bool := layer.m_evalSeq.isEmpty

/-- The greatest depth among the operands that the layer computes itself; -1 without such. -/
def OperandDepth (depMap : VoidPtr → Option Nat) (paramPtr : List VoidPtr) : Int :=
  paramPtr.foldl (fun res p => match depMap p with | some depth => max res depth | none => res) (-1)

/-- `m_evalSeq.resize(depth + 1)` where it is shorter. -/
def resized (evalSeq : List (EvalCluster ι U)) (depth : Nat) : List (EvalCluster ι U) :=
  if evalSeq.length ≤ depth then evalSeq ++ List.replicate (depth + 1 - evalSeq.length) [] else evalSeq

def EvalRegister [DecidableEq ι] (typeIndex : ι) (evalReq : U) (resPtr : VoidPtr) (paramPtr : List VoidPtr)
    (layer : EvalLayer ι U) : EvalLayer ι U :=
  if resPtr = .nullptr then layer
  else if (layer.m_outputs resPtr).isSome then layer
  else
    let depth := (OperandDepth layer.m_outputs paramPtr + 1).toNat
    let evalSeq := resized layer.m_evalSeq depth
    { m_evalSeq := evalSeq.set depth (EvalCluster.Merge typeIndex evalReq (evalSeq.getD depth []))
      m_outputs := Function.update layer.m_outputs resPtr (some depth) }

/-- The units of one depth. -/
def unitsAt (layer : EvalLayer ι U) (depth : Nat) : List U := (layer.m_evalSeq.getD depth []).units

end EvalLayer

/-- The records of all buffers, and `m_evalLayers` with its back before the layers under it. -/
structure EvalState (α ι U : Type) where
  heap : Heap α
  curLayer : EvalLayer ι U := {}
  outer : List (EvalLayer ι U) := []

namespace EvalState

def Register [DecidableEq ι] (typeIndex : ι) (evalReq : U) (outputPtr : VoidPtr) (paramPtr : List VoidPtr)
    (s : EvalState α ι U) : EvalState α ι U :=
  { s with curLayer := s.curLayer.EvalRegister typeIndex evalReq outputPtr paramPtr }

def push_back (s : EvalState α ι U) : EvalState α ι U := { s with curLayer := {}, outer := s.curLayer :: s.outer }

def pop_back (s : EvalState α ι U) : EvalState α ι U :=
  match s.outer with
  | [] => s
  | layer :: outer => { s with curLayer := layer, outer := outer }

def Clear (s : EvalState α ι U) : EvalState α ι U := { s with curLayer := {} }

section DoLayerEval

variable (Eval : U → EvalState α ι U → Except Stop (EvalState α ι U))
  (order : EvalState α ι U → EvalCluster ι U → EvalCluster ι U)

/-- The pool runs the units one after another. -/
def Process : List U → EvalState α ι U → Except Stop (EvalState α ι U)
  | [], s => .ok s
  | unit :: units, s => do
    let s ← Eval unit s
    Process units s

/-- The loop over the depths of a layer. `order` says how the hash table of a depth lists its groups, and
`DoLayerEval` evaluates the layer that its units have filled. -/
def evalSeq (DoLayerEval : EvalState α ι U → Except Stop (EvalState α ι U)) :
    List (EvalCluster ι U) → EvalState α ι U → Except Stop (EvalState α ι U)
  | [], s => .ok s
  | ec :: ecs, s => do
    let s ← Process Eval (order s ec).units s
    let s ← (if s.curLayer.Empty then .ok s else DoLayerEval s)
    evalSeq DoLayerEval ecs s

def DoLayerEval : Nat → EvalState α ι U → Except Stop (EvalState α ι U)
  | 0, _ => .error .fuel
  | fuel + 1, s =>
    if s.curLayer.Empty then .ok s
    else do
      let s ← evalSeq Eval order (DoLayerEval fuel) s.curLayer.m_evalSeq s.push_back
      .ok s.pop_back.Clear

end DoLayerEval

end EvalState

theorem EvalCluster.units_merge [DecidableEq ι] (typeIndex : ι) (unit : U) (ec : EvalCluster ι U) :
    (Merge typeIndex unit ec).units.Perm (unit :: ec.units) := by
  induction ec with
  | nil => exact List.Perm.refl _
  | cons group ec ih =>
    obtain ⟨i, us⟩ := group
    unfold Merge
    split
    · simp only [units, List.flatMap_cons, List.append_assoc, List.singleton_append]
      exact List.perm_middle
    · simp only [units, List.flatMap_cons] at ih ⊢
      exact (ih.append_left us).trans List.perm_middle

namespace EvalLayer

theorem OperandDepth_mono (depMap : VoidPtr → Option Nat) (paramPtr : List VoidPtr) (res : Int) :
    res ≤ paramPtr.foldl (fun res p => match depMap p with | some depth => max res depth | none => res) res := by
  induction paramPtr generalizing res with
  | nil => exact le_refl res
  | cons p paramPtr ih =>
    rw [List.foldl_cons]
    refine le_trans ?_ (ih _)
    split
    · exact le_max_left ..
    · exact le_refl res

/-- An operand of the layer lies before what reads it. -/
theorem lt_OperandDepth {depMap : VoidPtr → Option Nat} {paramPtr : List VoidPtr} {p : VoidPtr} {depth : Nat}
    (hp : p ∈ paramPtr) (hdepth : depMap p = some depth) : depth < (OperandDepth depMap paramPtr + 1).toNat := by
  suffices h : ∀ res : Int, (depth : Int) ≤
      paramPtr.foldl (fun res p => match depMap p with | some depth => max res depth | none => res) res by
    have := h (-1)
    unfold OperandDepth
    omega
  induction paramPtr with
  | nil => exact absurd hp List.not_mem_nil
  | cons q paramPtr ih =>
    intro res
    rw [List.foldl_cons]
    rcases List.mem_cons.mp hp with rfl | hp
    · refine le_trans ?_ (OperandDepth_mono depMap paramPtr _)
      rw [hdepth]
      exact le_max_right ..
    · exact ih hp _

theorem getD_resized (evalSeq : List (EvalCluster ι U)) (depth i : Nat) :
    (resized evalSeq depth).getD i [] = evalSeq.getD i [] := by
  unfold resized
  split
  · simp only [List.getD_eq_getElem?_getD, List.getElem?_append]
    split
    · rfl
    · next hi =>
      rw [List.getElem?_eq_none (Nat.le_of_not_lt hi), List.getElem?_replicate]
      split <;> rfl
  · rfl

theorem lt_length_resized (evalSeq : List (EvalCluster ι U)) (depth : Nat) : depth < (resized evalSeq depth).length := by
  unfold resized
  split
  · rw [List.length_append, List.length_replicate]
    omega
  · omega

variable [DecidableEq ι] {a : Address} {layer : EvalLayer ι U}

/-- All that a registration of a new output does. -/
theorem EvalRegister_spec (typeIndex : ι) (evalReq : U) (paramPtr : List VoidPtr) (hnew : layer.m_outputs (.info a) = none) :
    ∃ depth, (∀ p ∈ paramPtr, ∀ i, layer.m_outputs p = some i → i < depth) ∧
      (layer.EvalRegister typeIndex evalReq (.info a) paramPtr).m_outputs =
        Function.update layer.m_outputs (.info a) (some depth) ∧
      ((layer.EvalRegister typeIndex evalReq (.info a) paramPtr).unitsAt depth).Perm (evalReq :: layer.unitsAt depth) ∧
      ∀ i ≠ depth, (layer.EvalRegister typeIndex evalReq (.info a) paramPtr).unitsAt i = layer.unitsAt i := by
  unfold EvalRegister
  rw [if_neg VoidPtr.noConfusion, if_neg (by rw [hnew]; exact Bool.false_ne_true)]
  refine ⟨_, fun p hp i hi => lt_OperandDepth hp hi, rfl, ?_, fun i hi => ?_⟩
  · simp only [unitsAt]
    rw [List.getD_eq_getElem?_getD, List.getElem?_set_self (lt_length_resized ..), Option.getD_some, getD_resized]
    exact EvalCluster.units_merge ..
  · simp only [unitsAt]
    rw [List.getD_eq_getElem?_getD, List.getElem?_set_ne hi.symm, ← List.getD_eq_getElem?_getD, getD_resized]

/-- A registered output is not registered again. -/
theorem EvalRegister_of_registered (typeIndex : ι) (evalReq : U) (paramPtr : List VoidPtr)
    (h : (layer.m_outputs (.info a)).isSome) :
    layer.EvalRegister typeIndex evalReq (.info a) paramPtr = layer := by
  unfold EvalRegister
  rw [if_neg VoidPtr.noConfusion, if_pos h]

end EvalLayer

/-- What the handles of the buffers give. -/
def evaluated (heap : Heap α) (a : Address) : Option α := if (heap a).m_eval then some (heap a).m_data else none

variable {val t t' : Address → Option α}

theorem isEvaluated_iff {heap : Heap α} {a : Address} :
    EvalHandle.IsEvaluated heap a = true ↔ evaluated heap a ≠ none := by
  unfold EvalHandle.IsEvaluated evaluated
  cases (heap a).m_eval with
  | true => exact iff_of_true rfl (Option.some_ne_none _)
  | false => exact iff_of_false Bool.false_ne_true fun h => h rfl

/-- What a handle will give. -/
def ConstEvalHandle.value (val : Address → Option α) : ConstEvalHandle α → Option α
  | constData data => some data
  | evalHandle a => val a
  | dynamic handle => handle.value val

/-- The handle can be read. -/
def ConstEvalHandle.Ready (val t : Address → Option α) (handle : ConstEvalHandle α) : Prop :=
  ∀ a ∈ handle.address?, Settled val t a

theorem EvalHandle.data_of_settled {heap : Heap α} {a : Address} {v : α}
    (h : Settled val (evaluated heap) a) (hv : val a = some v) : EvalHandle.Data heap a = .ok v := by
  obtain ⟨w, hw, ht⟩ := h
  rw [hv] at hw
  cases hw
  unfold evaluated at ht
  unfold EvalHandle.Data EvalHandle.IsEvaluated
  split at ht
  · next heval =>
    rw [if_pos heval]
    cases ht
    rfl
  · cases ht

theorem ConstEvalHandle.data_of_ready {heap : Heap α} {handle : ConstEvalHandle α} {v : α}
    (h : handle.Ready val (evaluated heap)) (hv : handle.value val = some v) :
    handle.Data heap = .ok v := by
  induction handle with
  | constData data =>
    cases hv
    rfl
  | evalHandle a => exact EvalHandle.data_of_settled (h a rfl) hv
  | dynamic handle ih => exact ih h hv

theorem mapM_data_of_ready {heap : Heap α} {handles : List (ConstEvalHandle α)} {vs : List α}
    (h : ∀ handle ∈ handles, handle.Ready val (evaluated heap))
    (hvs : handles.mapM (ConstEvalHandle.value val) = some vs) :
    handles.mapM (ConstEvalHandle.Data heap) = .ok vs := by
  rw [mapM_eq_some] at hvs
  rw [mapM_eq_ok]
  induction hvs with
  | nil => exact .nil
  | cons hv _ ih =>
    exact .cons (ConstEvalHandle.data_of_ready (h _ List.mem_cons_self) hv)
      (ih fun handle hmem => h handle (List.mem_cons_of_mem _ hmem))

theorem evaluated_setEval {heap : Heap α} {a : Address} (data : α) (h : evaluated heap a = none) :
    ∃ heap₁ heap₂, EvalHandle.Allocate data a heap = .ok heap₁ ∧ EvalHandle.SetEval a heap₁ = .ok heap₂ ∧
      evaluated heap₂ = Function.update (evaluated heap) a (some data) := by
  have hfalse : (heap a).m_eval = false := by
    unfold evaluated at h
    split at h
    · cases h
    · next hne => exact Bool.eq_false_iff.mpr hne
  refine ⟨_, _, if_neg (by simp [EvalHandle.IsEvaluated, hfalse]),
    if_neg (by simp [EvalHandle.IsEvaluated, hfalse]), ?_⟩
  funext b
  by_cases hb : b = a
  · simp [evaluated, hb]
  · simp [evaluated, hb]

/-- What a unit is to the plan: where it writes, what it reads, how many units it registers one after another, and
that it computes what its output has to become. -/
structure UnitSpec (U : Type) where
  out : U → Address
  deps : U → List Address
  stages : U → Nat
  Fits : U → Prop

/-- With its operands in place, a unit either writes its output or registers another unit for it. -/
def UnitSpec.Sound [DecidableEq ι] (spec : UnitSpec U) (val : Address → Option α)
    (Eval : U → EvalState α ι U → Except Stop (EvalState α ι U)) : Prop :=
  ∀ unit s, spec.Fits unit → (∀ b ∈ spec.deps unit, Settled val (evaluated s.heap) b) →
    evaluated s.heap (spec.out unit) = none →
    (∃ heap, Eval unit s = .ok { s with heap := heap } ∧
      Fills val {spec.out unit} (evaluated s.heap) (evaluated heap)) ∨
    ∃ next typeIndex paramPtr, spec.Fits next ∧ spec.out next = spec.out unit ∧ spec.stages next < spec.stages unit ∧
      spec.deps next ⊆ spec.deps unit ∧ (∀ b ∈ spec.deps next, .info b ∈ paramPtr) ∧
      Eval unit s = .ok (s.Register typeIndex next (.info (spec.out unit)) paramPtr)

/-- A layer knows each output once, has its unit at the depth that it knows, and what the unit reads is settled or is
an output of a smaller depth. -/
structure Planned (spec : UnitSpec U) (val : Address → Option α) (fuel : Nat) (t : Address → Option α)
    (layer : EvalLayer ι U) : Prop where
  output : ∀ depth, ∀ unit ∈ layer.unitsAt depth, layer.m_outputs (.info (spec.out unit)) = some depth
  once : ∀ depth, ((layer.unitsAt depth).map spec.out).Nodup
  unit : ∀ a depth, layer.m_outputs (.info a) = some depth → ∃ unit ∈ layer.unitsAt depth, spec.out unit = a
  pending : ∀ a depth, layer.m_outputs (.info a) = some depth → t a = none
  fits : ∀ depth, ∀ unit ∈ layer.unitsAt depth, spec.Fits unit ∧ spec.stages unit < fuel
  reads : ∀ depth, ∀ unit ∈ layer.unitsAt depth, ∀ b ∈ spec.deps unit,
    Settled val t b ∨ ∃ i < depth, layer.m_outputs (.info b) = some i
  buffers : ∀ p, (∀ a, p ≠ .info a) → layer.m_outputs p = none
  used : layer.Empty = false → ∃ depth, ∃ unit, unit ∈ layer.unitsAt depth

variable {spec : UnitSpec U} {fuel : Nat} {layer : EvalLayer ι U}

/-- The buffers that a layer has units for. -/
def EvalLayer.outputs (layer : EvalLayer ι U) : Set Address := {a | (layer.m_outputs (.info a)).isSome}

namespace Planned

theorem empty : Planned spec val fuel t ({} : EvalLayer ι U) where
  output _ _ h := absurd h List.not_mem_nil
  once _ := List.nodup_nil
  unit _ _ h := nomatch h
  pending _ _ h := nomatch h
  fits _ _ h := absurd h List.not_mem_nil
  reads _ _ h := absurd h List.not_mem_nil
  buffers _ _ := rfl
  used h := nomatch h

/-- A layer without depths is as it was made. -/
theorem eq_empty (h : Planned spec val fuel t layer) (hempty : layer.Empty = true) : layer = {} := by
  obtain ⟨m_evalSeq, m_outputs⟩ := layer
  obtain rfl : m_evalSeq = [] := List.isEmpty_iff.mp hempty
  congr
  funext p
  cases p with
  | info a =>
    cases ha : m_outputs (.info a) with
    | none => rfl
    | some depth =>
      obtain ⟨unit, hunit, -⟩ := h.unit a depth ha
      exact absurd hunit List.not_mem_nil
  | nullptr => exact h.buffers _ fun _ => VoidPtr.noConfusion
  | constData => exact h.buffers _ fun _ => VoidPtr.noConfusion

theorem mono {fuel' : Nat} (h : Planned spec val fuel t layer) (hle : fuel ≤ fuel') :
    Planned spec val fuel' t layer :=
  { h with fits := fun depth unit hunit => ⟨(h.fits depth unit hunit).1, (h.fits depth unit hunit).2.trans_le hle⟩ }

/-- Other buffers can be written. -/
theorem fills (h : Planned spec val fuel t layer) {A : Set Address} (hfills : Fills val A t t')
    (hA : ∀ a ∈ A, a ∉ layer.outputs) : Planned spec val fuel t' layer where
  output := h.output
  once := h.once
  unit := h.unit
  pending a depth ha := by
    have hout : a ∉ A := fun haA => hA a haA (Option.isSome_of_eq_some ha)
    rw [hfills.frame a hout]
    exact h.pending a depth ha
  fits := h.fits
  reads depth unit hunit b hb := (h.reads depth unit hunit b hb).imp_left hfills.settled
  buffers := h.buffers
  used := h.used

/-- A unit for a new output can be registered when its operands are there or are outputs of the layer. -/
theorem EvalRegister [DecidableEq ι] (h : Planned spec val fuel t layer) (typeIndex : ι) (evalReq : U)
    (paramPtr : List VoidPtr) (hnew : spec.out evalReq ∉ layer.outputs) (hpending : t (spec.out evalReq) = none)
    (hfits : spec.Fits evalReq) (hstages : spec.stages evalReq < fuel)
    (hparam : ∀ b ∈ spec.deps evalReq, .info b ∈ paramPtr)
    (hreads : ∀ b ∈ spec.deps evalReq, Settled val t b ∨ b ∈ layer.outputs) :
    Planned spec val fuel t (layer.EvalRegister typeIndex evalReq (.info (spec.out evalReq)) paramPtr) ∧
      (layer.EvalRegister typeIndex evalReq (.info (spec.out evalReq)) paramPtr).outputs =
        insert (spec.out evalReq) layer.outputs := by
  have hnone : layer.m_outputs (.info (spec.out evalReq)) = none := Option.not_isSome_iff_eq_none.mp hnew
  obtain ⟨depth, hdepth, houtputs, hat, hother⟩ := EvalLayer.EvalRegister_spec typeIndex evalReq
    paramPtr hnone
  generalize layer.EvalRegister typeIndex evalReq (.info (spec.out evalReq)) paramPtr = layer' at houtputs hat hother ⊢
  have hmem : ∀ i unit, unit ∈ layer'.unitsAt i ↔ (i = depth ∧ unit = evalReq) ∨ unit ∈ layer.unitsAt i := by
    intro i unit
    by_cases hi : i = depth
    · rw [hi, hat.mem_iff, List.mem_cons]
      simp
    · rw [hother i hi]
      simp [hi]
  have hself : layer'.m_outputs (.info (spec.out evalReq)) = some depth := by
    rw [houtputs, Function.update_self]
  have hkeep : ∀ a ≠ spec.out evalReq, layer'.m_outputs (.info a) = layer.m_outputs (.info a) := by
    intro a ha
    rw [houtputs, Function.update_of_ne (by simpa using ha)]
  have hold : ∀ a i, layer.m_outputs (.info a) = some i → layer'.m_outputs (.info a) = some i := by
    intro a i ha
    rw [hkeep a (by rintro rfl; rw [hnone] at ha; cases ha)]
    exact ha
  constructor
  · constructor
    case output =>
      intro i unit hunit
      rcases (hmem i unit).mp hunit with ⟨rfl, rfl⟩ | hunit
      · exact hself
      · exact hold _ i (h.output i unit hunit)
    case once =>
      intro i
      by_cases hi : i = depth
      · rw [hi, (hat.map spec.out).nodup_iff, List.map_cons, List.nodup_cons]
        refine ⟨fun hin => ?_, h.once depth⟩
        obtain ⟨unit, hunit, heq⟩ := List.mem_map.mp hin
        have := h.output depth unit hunit
        rw [heq, hnone] at this
        cases this
      · rw [hother i hi]
        exact h.once i
    case unit =>
      intro a i ha
      by_cases hself' : a = spec.out evalReq
      · rw [hself', hself] at ha
        cases ha
        exact ⟨evalReq, (hmem depth evalReq).mpr (.inl ⟨rfl, rfl⟩), hself'.symm⟩
      · rw [hkeep a hself'] at ha
        obtain ⟨unit, hunit, hout⟩ := h.unit a i ha
        exact ⟨unit, (hmem i unit).mpr (.inr hunit), hout⟩
    case pending =>
      intro a i ha
      by_cases hself' : a = spec.out evalReq
      · rw [hself']
        exact hpending
      · rw [hkeep a hself'] at ha
        exact h.pending a i ha
    case fits =>
      intro i unit hunit
      rcases (hmem i unit).mp hunit with ⟨-, rfl⟩ | hunit
      · exact ⟨hfits, hstages⟩
      · exact h.fits i unit hunit
    case reads =>
      intro i unit hunit b hb
      rcases (hmem i unit).mp hunit with ⟨rfl, rfl⟩ | hunit
      · refine (hreads b hb).imp_right fun hin => ?_
        obtain ⟨j, hj⟩ := Option.isSome_iff_exists.mp hin
        exact ⟨j, hdepth _ (hparam b hb) j hj, hold b j hj⟩
      · refine (h.reads i unit hunit b hb).imp_right ?_
        rintro ⟨j, hj, hout⟩
        exact ⟨j, hj, hold b j hout⟩
    case buffers =>
      intro p hp
      rw [houtputs, Function.update_of_ne (hp _)]
      exact h.buffers p hp
    case used => exact fun _ => ⟨depth, evalReq, (hmem depth evalReq).mpr (.inl ⟨rfl, rfl⟩)⟩
  · ext a
    rw [Set.mem_insert_iff]
    by_cases hself' : a = spec.out evalReq
    · rw [hself']
      simp [EvalLayer.outputs, hself]
    · simp [EvalLayer.outputs, hkeep a hself', hself']

end Planned

section

variable [DecidableEq ι] {Eval : U → EvalState α ι U → Except Stop (EvalState α ι U)}
  {order : EvalState α ι U → EvalCluster ι U → EvalCluster ι U} {s : EvalState α ι U}

/-- The units of a depth write their outputs or leave units for them in the next layer. -/
theorem Process_spec (hsound : spec.Sound val Eval) (units : List U)
    (hplan : Planned spec val fuel (evaluated s.heap) s.curLayer) (hnodup : (units.map spec.out).Nodup)
    (hunits : ∀ unit ∈ units, spec.Fits unit ∧ spec.stages unit < fuel + 1 ∧
      evaluated s.heap (spec.out unit) = none ∧ spec.out unit ∉ s.curLayer.outputs ∧
      ∀ b ∈ spec.deps unit, Settled val (evaluated s.heap) b) :
    ∃ s' A, EvalState.Process Eval units s = .ok s' ∧ s'.outer = s.outer ∧
      Planned spec val fuel (evaluated s'.heap) s'.curLayer ∧ Fills val A (evaluated s.heap) (evaluated s'.heap) ∧
      A ∪ s'.curLayer.outputs = {a | a ∈ units.map spec.out} ∪ s.curLayer.outputs := by
  induction units generalizing s with
  | nil => exact ⟨s, ∅, rfl, rfl, hplan, Fills.refl .., by simp⟩
  | cons unit units ih =>
    rw [List.map_cons, List.nodup_cons] at hnodup
    obtain ⟨hfits, hstages, hpending, hnew, hdeps⟩ := hunits unit List.mem_cons_self
    have hother : ∀ u ∈ units, spec.out u ≠ spec.out unit := fun u hu heq =>
      hnodup.1 (heq ▸ List.mem_map_of_mem hu)
    obtain ⟨heap, hstep, hfills⟩ | ⟨next, typeIndex, paramPtr, hfits', hout, hless, hsub, hparam, hstep⟩ :=
      hsound unit s hfits hdeps hpending
    · obtain ⟨s', A, hrun, houter, hplan', hfills', hA⟩ := ih (s := { s with heap := heap })
        (hplan.fills hfills (by simpa using hnew)) hnodup.2 fun u hu => by
          obtain ⟨h1, h2, h3, h4, h5⟩ := hunits u (List.mem_cons_of_mem _ hu)
          refine ⟨h1, h2, (hfills.frame _ (hother u hu)).trans h3, h4, fun b hb => hfills.settled (h5 b hb)⟩
      refine ⟨s', _, ?_, houter, hplan', hfills.trans hfills', ?_⟩
      · unfold EvalState.Process
        rw [hstep]
        exact hrun
      · rw [Set.union_assoc, hA]
        ext a
        simp [or_assoc]
    · obtain ⟨hplan₁, houts⟩ := hplan.EvalRegister typeIndex next paramPtr
        (hout ▸ hnew) (hout ▸ hpending) hfits' (by omega) hparam fun b hb => .inl (hdeps b (hsub hb))
      rw [hout] at hplan₁ houts
      obtain ⟨s', A, hrun, houter, hplan', hfills', hA⟩ :=
        ih (s := s.Register typeIndex next (.info (spec.out unit)) paramPtr) hplan₁ hnodup.2 fun u hu => by
          obtain ⟨h1, h2, h3, h4, h5⟩ := hunits u (List.mem_cons_of_mem _ hu)
          refine ⟨h1, h2, h3, fun hin => ?_, h5⟩
          rw [EvalState.Register, houts, Set.mem_insert_iff] at hin
          exact hin.elim (hother u hu) h4
      refine ⟨s', A, ?_, houter, hplan', hfills', ?_⟩
      · unfold EvalState.Process
        rw [hstep]
        exact hrun
      · rw [hA, EvalState.Register, houts]
        ext a
        simp only [Set.mem_union, Set.mem_ofPred_eq, Set.mem_insert_iff, List.map_cons, List.mem_cons]
        tauto

/-- The layer that one depth leaves is evaluated before the next depth. -/
theorem evalSeq_spec (hsound : spec.Sound val Eval) (horder : ∀ s ec, (order s ec).Perm ec)
    {DoLayerEval : EvalState α ι U → Except Stop (EvalState α ι U)}
    (hnested : ∀ s, Planned spec val fuel (evaluated s.heap) s.curLayer → s.curLayer.Empty = false →
      ∃ s', DoLayerEval s = .ok s' ∧ s'.curLayer = {} ∧ s'.outer = s.outer ∧
        Fills val s.curLayer.outputs (evaluated s.heap) (evaluated s'.heap))
    (hplan : Planned spec val (fuel + 1) t layer) (i : Nat) (ecs : List (EvalCluster ι U))
    (hecs : layer.m_evalSeq.drop i = ecs) (hcur : s.curLayer = {})
    (hfills : Fills val {a | ∃ j < i, layer.m_outputs (.info a) = some j} t (evaluated s.heap)) :
    ∃ s', EvalState.evalSeq Eval order DoLayerEval ecs s = .ok s' ∧ s'.curLayer = {} ∧ s'.outer = s.outer ∧
      Fills val layer.outputs t (evaluated s'.heap) := by
  induction ecs generalizing i s with
  | nil =>
    refine ⟨s, rfl, hcur, rfl, hfills.congr fun a => ⟨?_, fun ha => ?_⟩⟩
    · rintro ⟨j, -, hj⟩
      exact Option.isSome_of_eq_some hj
    · obtain ⟨j, hj⟩ := Option.isSome_iff_exists.mp ha
      obtain ⟨unit, hunit, -⟩ := hplan.unit a j hj
      refine ⟨j, ?_, hj⟩
      have hlen := List.drop_eq_nil_iff.mp hecs
      by_contra hij
      rw [EvalLayer.unitsAt, List.getD_eq_getElem?_getD, List.getElem?_eq_none (by omega)] at hunit
      exact List.not_mem_nil hunit
  | cons ec ecs ih =>
    have hec : layer.unitsAt i = ec.units := by
      rw [EvalLayer.unitsAt, List.getD_eq_getElem?_getD, ← List.head?_drop, hecs]
      rfl
    have hperm : (order s ec).units.Perm (layer.unitsAt i) := by
      rw [hec]
      exact (horder s ec).flatMap_right _
    obtain ⟨s₁, A, hrun, houter, hplan₁, hfills₁, hA⟩ :=
      Process_spec hsound (order s ec).units (s := s) (hcur ▸ Planned.empty)
        ((hperm.map spec.out).nodup_iff.mpr (hplan.once i)) fun unit hunit => by
          have hunit := hperm.mem_iff.mp hunit
          have hout := hplan.output i unit hunit
          refine ⟨(hplan.fits i unit hunit).1, (hplan.fits i unit hunit).2, ?_, ?_, fun b hb => ?_⟩
          · rw [hfills.frame, hplan.pending _ i hout]
            rintro ⟨j, hj, hout'⟩
            rw [hout] at hout'
            cases hout'
            omega
          · rw [hcur]
            exact Bool.false_ne_true
          · rcases hplan.reads i unit hunit b hb with hb | hb
            · exact hfills.settled hb
            · exact hfills.written b hb
    have hunits : ∀ a, a ∈ (order s ec).units.map spec.out ↔ layer.m_outputs (.info a) = some i := by
      intro a
      rw [(hperm.map spec.out).mem_iff, List.mem_map]
      constructor
      · rintro ⟨unit, hunit, rfl⟩
        exact hplan.output i unit hunit
      · exact hplan.unit a i
    obtain ⟨s₂, hnext, hcur₂, houter₂, hfills₂⟩ : ∃ s₂,
        (if s₁.curLayer.Empty then .ok s₁ else DoLayerEval s₁) = .ok s₂ ∧ s₂.curLayer = {} ∧ s₂.outer = s₁.outer ∧
          Fills val s₁.curLayer.outputs (evaluated s₁.heap) (evaluated s₂.heap) := by
      cases hempty : s₁.curLayer.Empty with
      | true =>
        have hcur₁ := hplan₁.eq_empty hempty
        refine ⟨s₁, rfl, hcur₁, rfl, (Fills.refl ..).congr fun a => ?_⟩
        rw [hcur₁]
        exact Iff.intro False.elim Bool.noConfusion
      | false => exact hnested s₁ hplan₁ hempty
    obtain ⟨s', hrest, hcur', houter', hfills'⟩ := ih (i + 1) (s := s₂)
      (by rw [← List.drop_drop, hecs]; rfl) hcur₂ <| ((hfills.trans hfills₁).trans hfills₂).congr fun a => by
        rw [Set.union_assoc, hA, hcur]
        simp only [Set.mem_union, Set.mem_ofPred_eq, hunits, Nat.lt_succ_iff_lt_or_eq]
        constructor
        · rintro (⟨j, hj, hout⟩ | hout | hout)
          · exact ⟨j, .inl hj, hout⟩
          · exact ⟨i, .inr rfl, hout⟩
          · exact absurd hout Bool.false_ne_true
        · rintro ⟨j, hj | rfl, hout⟩
          · exact .inl ⟨j, hj, hout⟩
          · exact .inr (.inl hout)
    refine ⟨s', ?_, hcur', houter'.trans (houter₂.trans houter), hfills'⟩
    unfold EvalState.evalSeq
    rw [hrun]
    show (if s₁.curLayer.Empty then Except.ok s₁ else DoLayerEval s₁) >>=
      EvalState.evalSeq Eval order DoLayerEval ecs = _
    rw [hnext]
    exact hrest

/-- **`DoLayerEval` gives every registered output its value, and touches no other.** -/
theorem DoLayerEval_spec (hsound : spec.Sound val Eval) (horder : ∀ s ec, (order s ec).Perm ec) (fuel : Nat)
    (hpos : 0 < fuel) (hplan : Planned spec val fuel (evaluated s.heap) s.curLayer) :
    ∃ s', EvalState.DoLayerEval Eval order fuel s = .ok s' ∧ s'.curLayer = {} ∧ s'.outer = s.outer ∧
      Fills val s.curLayer.outputs (evaluated s.heap) (evaluated s'.heap) := by
  induction fuel generalizing s with
  | zero => exact absurd hpos (Nat.lt_irrefl 0)
  | succ fuel ih =>
    unfold EvalState.DoLayerEval
    cases hempty : s.curLayer.Empty with
    | true =>
      have hcur := hplan.eq_empty hempty
      refine ⟨s, rfl, hcur, rfl, (Fills.refl ..).congr fun a => ?_⟩
      rw [hcur]
      exact Iff.intro False.elim Bool.noConfusion
    | false =>
      obtain ⟨s', hrun, hcur, houter, hfills⟩ := evalSeq_spec (s := s.push_back) hsound horder (fun s hs hused => by
          obtain ⟨depth, unit, hunit⟩ := hs.used hused
          exact ih (Nat.zero_lt_of_lt (hs.fits depth unit hunit).2) hs) hplan 0 s.curLayer.m_evalSeq rfl rfl
        ((Fills.refl ..).congr fun a => by simp)
      refine ⟨s'.pop_back.Clear, ?_, rfl, ?_, ?_⟩
      · rw [if_neg Bool.false_ne_true, hrun]
        rfl
      · unfold EvalState.pop_back
        rw [houter]
        rfl
      · unfold EvalState.pop_back
        rw [houter]
        exact hfills

end

end Perception.MetaNN
