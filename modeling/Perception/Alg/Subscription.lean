import Perception.Lib.MessageBus
import Perception.Transfer.Cameras

/-!
# The frames that the algorithms subscribe to

A face algorithm attaches itself for every data source of every call, as its table of
topics is never written. A detection algorithm attaches itself once for each address, and
keeps the topic of the first call. Both are called again with every configuration.
-/
namespace Perception.Alg

set_option autoImplicit false

open Perception.Lib Perception.Cfg Perception.Db Perception.Transfer StateExcept
open VsTransferMng (rtspCamera)

def strAlgResultCmd : String := "AlgResultReport"

def AlgResultTopic (strType strIdx : String) : String := strType ++ strIdx ++ strAlgResultCmd

/-- `string(j[k])` on a const value. -/
def constAttr (j : Json) (k : String) : Except Exn String := do
  let v ← j.constChild k
  v.toStr

/-- The topic of a data source, with its address. -/
def dataSrcTopic (DataSrcCfg : Json) : Except Exn (String × String) := do
  let strIp ← constAttr DataSrcCfg strAttriIp
  let jParams ← DataSrcCfg.constChild strAttriParams
  let strCode ← constAttr jParams strAttriCode
  pure (strIp, RtspStreamTopic strIp strCode)

/-- Set the topic that results are reported on. -/
def SetReportTopic (m_mapResultReportTopic : List (String × Int)) (taskCfg : Json) :
    Except Exn (List (String × Int)) := do
  let strType ← constAttr taskCfg strAttriType
  let strIdx ← constAttr taskCfg strAttriIdx
  pure (SortedMap.emplace m_mapResultReportTopic (AlgResultTopic strType strIdx) 0)

/-- The bus for frames; what is attached is known by the object that it belongs to. -/
abbrev FrameBus (σ : Type) := MessageBus String σ

structure FaceAlg where
  m_bAlgInit : Bool
  m_mapResultReportTopic : List (String × Int)
  m_mapDataSrcTopic : List (String × String)

/-- A call of `CFaceAlg::Init`. -/
structure FaceCall where
  taskCfg : Json
  lstDataSrcCfg : List Json
  /-- What the initialisation of the models throws. -/
  algInitLst : Option Exn

namespace FaceAlg

def new : FaceAlg := ⟨false, [], []⟩

variable {σ : Type}

abbrev Cmd (σ α : Type) : Type := EStateM Exn (FaceAlg × FrameBus σ) α

/-- One turn of the loop of `CFaceAlg::DataSrcInit`. -/
def attachDataSrc (this : σ) (DataSrcCfg : Json) : Cmd σ Unit := do
  let (_, strTopic) ← fromExcept (dataSrcTopic DataSrcCfg)
  modify fun s =>
    if (SortedMap.find? s.1.m_mapDataSrcTopic strTopic).isSome then s else (s.1, s.2.Attach this strTopic)

def DataSrcInit (this : σ) (lstDataSrcCfg : List Json) : Cmd σ Unit := lstDataSrcCfg.forM (attachDataSrc this)

def Init (this : σ) (c : FaceCall) : Cmd σ Unit := do
  let s ← get
  let topics ← fromExcept (SetReportTopic s.1.m_mapResultReportTopic c.taskCfg)
  set ({ s.1 with m_mapResultReportTopic := topics }, s.2)
  throwOption (if s.1.m_bAlgInit then none else c.algInitLst)
  modify fun s => ({ s.1 with m_bAlgInit := true }, s.2)
  DataSrcInit this c.lstDataSrcCfg

end FaceAlg

/-- What `model_load` has made of a context. -/
inductive rknn_context
  | uninitialised
  | loaded
  deriving DecidableEq

structure DetectAlg where
  m_mapResultReportTopic : List (String × Int)
  m_mapDataSrcTopic : List (String × String)
  /-- The models, by their key. -/
  m_mapAlgModel : List (String × rknn_context)

/-- A call of `CDetectAlg::Init`. -/
structure DetectCall where
  taskCfg : Json
  algCfg : Json
  DataSrcCfg : Json
  /-- What `model_load` returns. -/
  model_load : Bool

namespace DetectAlg

def new : DetectAlg := ⟨[], [], []⟩

variable {σ : Type}

abbrev Cmd (σ α : Type) : Type := EStateM Exn (DetectAlg × FrameBus σ) α

/-- A model is loaded once; the key stays also when it cannot be loaded. -/
def AlgInit (c : DetectCall) : Cmd σ Bool := do
  let strType ← fromExcept (constAttr c.algCfg strAttriType)
  let strIdx ← fromExcept (constAttr c.algCfg strAttriIdx)
  let s ← get
  if (SortedMap.find? s.1.m_mapAlgModel (strType ++ strIdx)).isSome then pure true
  else do
    let m_mapAlgModel := SortedMap.emplace s.1.m_mapAlgModel (strType ++ strIdx) .uninitialised
    set ({ s.1 with m_mapAlgModel := m_mapAlgModel }, s.2)
    let jModel ← fromExcept (c.algCfg.constChild strAttriModel)
    let _ ← fromExcept (constAttr jModel strAttriName)
    if c.model_load then do
      set ({ s.1 with m_mapAlgModel := SortedMap.insert m_mapAlgModel (strType ++ strIdx) .loaded }, s.2)
      pure true
    else pure false

/-- An address that is not in the table is put there, and its topic attached to. -/
def attachDataSrc (this : σ) (strIp strTopic : String) (s : DetectAlg × FrameBus σ) : DetectAlg × FrameBus σ :=
  if (SortedMap.find? s.1.m_mapDataSrcTopic strIp).isSome then s
  else
    let m_mapDataSrcTopic := SortedMap.emplace s.1.m_mapDataSrcTopic strIp strTopic
    ({ s.1 with m_mapDataSrcTopic := m_mapDataSrcTopic }, s.2.Attach this strTopic)

def DataSrcInit (this : σ) (DataSrcCfg : Json) : Cmd σ Bool := do
  let (strIp, strTopic) ← fromExcept (dataSrcTopic DataSrcCfg)
  modify (attachDataSrc this strIp strTopic)
  pure true

def Init (this : σ) (c : DetectCall) : Cmd σ Bool := do
  let s ← get
  let topics ← fromExcept (SetReportTopic s.1.m_mapResultReportTopic c.taskCfg)
  set ({ s.1 with m_mapResultReportTopic := topics }, s.2)
  let loaded ← AlgInit c
  if loaded then DataSrcInit this c.DataSrcCfg else pure false

end DetectAlg

section

variable {σ : Type} [DecidableEq σ]

/-- A frame of each of these sources makes the object work exactly once. -/
def SubscribedOnce (this : σ) (bus : FrameBus σ) (lstDataSrcCfg : List Json) : Prop :=
  ∀ DataSrcCfg ∈ lstDataSrcCfg, ∀ strIp strTopic, dataSrcTopic DataSrcCfg = .ok (strIp, strTopic) →
    (bus.SendReq strTopic).count this = 1

end

def topicOf (DataSrcCfg : Json) : String := ((dataSrcTopic DataSrcCfg).toOption.getD ("", "")).2
def addressOf (DataSrcCfg : Json) : String := ((dataSrcTopic DataSrcCfg).toOption.getD ("", "")).1

theorem topicOf_of_ok {DataSrcCfg : Json} {strIp strTopic : String}
    (h : dataSrcTopic DataSrcCfg = .ok (strIp, strTopic)) :
    topicOf DataSrcCfg = strTopic ∧ addressOf DataSrcCfg = strIp := by
  rw [topicOf, addressOf, h]
  exact ⟨rfl, rfl⟩

namespace FaceAlg

/-- The topic of each source of the last call occurs once in all calls. -/
def Once (calls : List FaceCall) (last : FaceCall) : Prop :=
  ∀ DataSrcCfg ∈ last.lstDataSrcCfg, ∀ strIp strTopic, dataSrcTopic DataSrcCfg = .ok (strIp, strTopic) →
    (((calls ++ [last]).flatMap FaceCall.lstDataSrcCfg).map topicOf).count strTopic = 1

variable {σ : Type} [DecidableEq σ] {this : σ}

/-- The table of topics stays empty, so every source of the list is attached. -/
theorem DataSrcInit_ok {lstDataSrcCfg : List Json} {s s' : FaceAlg × FrameBus σ}
    (hs : s.1.m_mapDataSrcTopic = []) (h : DataSrcInit this lstDataSrcCfg s = .ok ⟨⟩ s') :
    s'.1.m_mapDataSrcTopic = [] ∧ ∀ t, (s'.2.SendReq t).count this =
      (s.2.SendReq t).count this + (lstDataSrcCfg.map topicOf).count t := by
  unfold DataSrcInit at h
  induction lstDataSrcCfg generalizing s with
  | nil =>
    cases h
    exact ⟨hs, fun t => by simp⟩
  | cons DataSrcCfg lstDataSrcCfg ih =>
    obtain ⟨s₁, h₁, h⟩ := forM_cons_eq_ok.mp h
    obtain ⟨⟨strIp, strTopic⟩, _, hfrom, h₁⟩ := bind_eq_ok.mp h₁
    obtain ⟨htopic, rfl⟩ := fromExcept_eq_ok.mp hfrom
    have hs₁ : s₁ = (s.1, s.2.Attach this strTopic) := by
      cases h₁
      show (if (SortedMap.find? s.1.m_mapDataSrcTopic strTopic).isSome then s else _) = _
      rw [hs]
      rfl
    subst hs₁
    obtain ⟨hempty, hcount⟩ := ih (s := (s.1, s.2.Attach this strTopic)) hs h
    refine ⟨hempty, fun t => ?_⟩
    rw [hcount, MessageBus.count_SendReq_Attach, List.map_cons, (topicOf_of_ok htopic).1, List.count_cons]
    simp only [and_true, beq_iff_eq]
    omega

theorem Init_ok {c : FaceCall} {s s' : FaceAlg × FrameBus σ} (hs : s.1.m_mapDataSrcTopic = [])
    (h : Init this c s = .ok ⟨⟩ s') :
    s'.1.m_mapDataSrcTopic = [] ∧ ∀ t, (s'.2.SendReq t).count this =
      (s.2.SendReq t).count this + (c.lstDataSrcCfg.map topicOf).count t := by
  obtain ⟨_, _, hget, h⟩ := bind_eq_ok.mp h
  cases hget
  obtain ⟨topics, _, hfrom, h⟩ := bind_eq_ok.mp h
  obtain ⟨-, rfl⟩ := fromExcept_eq_ok.mp hfrom
  obtain ⟨_, _, hset, h⟩ := bind_eq_ok.mp h
  cases hset
  obtain ⟨_, s₁, halg, h⟩ := bind_eq_ok.mp h
  have hs₁ : s₁ = ({ s.1 with m_mapResultReportTopic := topics }, s.2) := by
    cases hthrow : (if s.1.m_bAlgInit then none else c.algInitLst) with
    | none =>
      rw [hthrow] at halg
      cases halg
      rfl
    | some e =>
      rw [hthrow] at halg
      cases halg
  subst hs₁
  obtain ⟨_, _, hmod, h⟩ := bind_eq_ok.mp h
  cases hmod
  exact DataSrcInit_ok (s := ({ s.1 with m_bAlgInit := true, m_mapResultReportTopic := topics }, s.2)) hs h

theorem forM_Init_ok {calls : List FaceCall} {s s' : FaceAlg × FrameBus σ} (hs : s.1.m_mapDataSrcTopic = [])
    (h : calls.forM (Init this) s = .ok ⟨⟩ s') (t : String) :
    (s'.2.SendReq t).count this =
      (s.2.SendReq t).count this + ((calls.flatMap FaceCall.lstDataSrcCfg).map topicOf).count t := by
  induction calls generalizing s with
  | nil =>
    cases h
    rfl
  | cons c calls ih =>
    obtain ⟨s₁, h₁, h⟩ := forM_cons_eq_ok.mp h
    obtain ⟨hempty, hcount⟩ := Init_ok hs h₁
    rw [ih hempty h, hcount, List.flatMap_cons, List.map_append, List.count_append, Nat.add_assoc]

/-- A face algorithm is attached once for each source of the last call exactly when no
source was given before, or twice. -/
theorem subscribedOnce_iff {bus : FrameBus σ} (hfree : ∀ t, (bus.SendReq t).count this = 0) {calls : List FaceCall}
    {last : FaceCall} {s : FaceAlg × FrameBus σ} (h : (calls ++ [last]).forM (Init this) (new, bus) = .ok ⟨⟩ s) :
    SubscribedOnce this s.2 last.lstDataSrcCfg ↔ Once calls last := by
  have hcount := forM_Init_ok rfl h
  simp only [hfree, Nat.zero_add] at hcount
  unfold SubscribedOnce Once
  simp only [hcount]

end FaceAlg

namespace DetectAlg

def modelKey (c : DetectCall) : String :=
  (constAttr c.algCfg strAttriType).toOption.getD "" ++ (constAttr c.algCfg strAttriIdx).toOption.getD ""

/-- The calls that get to the data source: those whose model was tried before, or loads. -/
def pastAlgInit (tried : List String) : List DetectCall → List DetectCall
  | [] => []
  | c :: calls =>
    if modelKey c ∈ tried ∨ c.model_load = true then c :: pastAlgInit (modelKey c :: tried) calls
    else pastAlgInit (modelKey c :: tried) calls

/-- The first call for each address. -/
def firstOfAddress (seen : List String) : List DetectCall → List DetectCall
  | [] => []
  | c :: calls =>
    if addressOf c.DataSrcCfg ∈ seen then firstOfAddress seen calls
    else c :: firstOfAddress (addressOf c.DataSrcCfg :: seen) calls

/-- Of the first calls for each address, one has the topic of the last call. -/
def Once (calls : List DetectCall) (last : DetectCall) : Prop :=
  ∀ strIp strTopic, dataSrcTopic last.DataSrcCfg = .ok (strIp, strTopic) →
    ((firstOfAddress [] (pastAlgInit [] (calls ++ [last]))).map fun c => topicOf c.DataSrcCfg).count strTopic = 1

variable {σ : Type}

/-- `strAlgMapKey` -/
def mapKey (c : DetectCall) : Except Exn String := do
  let strType ← constAttr c.algCfg strAttriType
  let strIdx ← constAttr c.algCfg strAttriIdx
  pure (strType ++ strIdx)

/-- The name of the model, which is read once the key is in the map. -/
def modelName (c : DetectCall) : Except Exn String := do
  let jModel ← c.algCfg.constChild strAttriModel
  constAttr jModel strAttriName

theorem find?_isSome {k : String} {m : List (String × rknn_context)} : (SortedMap.find? m k).isSome = true ↔ k ∈ SortedMap.keys m := by
  rw [SortedMap.mem_keys, Option.isSome_iff_exists]

theorem AlgInit_unread {c : DetectCall} {e : Exn} (h : mapKey c = .error e) (s : DetectAlg × FrameBus σ) :
    AlgInit c s = .error e s := by
  unfold mapKey at h
  unfold AlgInit
  rcases except_bind_eq_error.mp h with htype | ⟨strType, htype, h⟩
  · rw [htype]
    rfl
  · rcases except_bind_eq_error.mp h with hidx | ⟨strIdx, hidx, h⟩
    · rw [htype, hidx]
      rfl
    · cases h

/-- With its key a call finds the model, or puts it into the map before it reads its name. -/
theorem AlgInit_read {c : DetectCall} {strAlgMapKey : String} (h : mapKey c = .ok strAlgMapKey) (s : DetectAlg × FrameBus σ) :
    AlgInit c s =
      if strAlgMapKey ∈ SortedMap.keys s.1.m_mapAlgModel then .ok true s
      else
        let m_mapAlgModel := SortedMap.emplace s.1.m_mapAlgModel strAlgMapKey rknn_context.uninitialised
        match modelName c with
        | .error e => .error e ({ s.1 with m_mapAlgModel := m_mapAlgModel }, s.2)
        | .ok _ =>
          if c.model_load then
            .ok true ({ s.1 with m_mapAlgModel := SortedMap.insert m_mapAlgModel strAlgMapKey .loaded }, s.2)
          else .ok false ({ s.1 with m_mapAlgModel := m_mapAlgModel }, s.2) := by
  unfold mapKey at h
  obtain ⟨strType, htype, h⟩ := except_bind_eq_ok.mp h
  obtain ⟨strIdx, hidx, h⟩ := except_bind_eq_ok.mp h
  cases h
  unfold AlgInit modelName
  rw [htype, hidx]
  show (if _ then _ else _ : Cmd σ Bool) s = _
  by_cases hkey : strType ++ strIdx ∈ SortedMap.keys s.1.m_mapAlgModel
  · rw [if_pos (find?_isSome.mpr hkey), if_pos hkey]
    rfl
  · rw [if_neg fun hsome => hkey (find?_isSome.mp hsome), if_neg hkey]
    cases c.algCfg.constChild strAttriModel with
    | error e => rfl
    | ok jModel =>
      change (fromExcept (constAttr jModel strAttriName) >>= fun _ => _) (_, s.2) = match constAttr jModel strAttriName with
        | .error e => _
        | .ok _ => _
      cases constAttr jModel strAttriName with
      | error e => rfl
      | ok strName =>
        cases c.model_load with
        | false => rfl
        | true => rfl

theorem modelKey_eq {c : DetectCall} {strAlgMapKey : String} (h : mapKey c = .ok strAlgMapKey) : modelKey c = strAlgMapKey := by
  obtain ⟨strType, htype, h⟩ := except_bind_eq_ok.mp h
  obtain ⟨strIdx, hidx, h⟩ := except_bind_eq_ok.mp h
  cases h
  rw [modelKey, htype, hidx]
  rfl

/-- Whether a call gets to the data source, and that it has tried its model then. -/
theorem AlgInit_ok {c : DetectCall} {s s' : DetectAlg × FrameBus σ} {b : Bool} (h : AlgInit c s = .ok b s') :
    (b = true ↔ modelKey c ∈ SortedMap.keys s.1.m_mapAlgModel ∨ c.model_load = true) ∧
      (∀ k, k ∈ SortedMap.keys s'.1.m_mapAlgModel ↔ k ∈ SortedMap.keys s.1.m_mapAlgModel ∨ k = modelKey c) ∧
      s'.1.m_mapDataSrcTopic = s.1.m_mapDataSrcTopic ∧ s'.2 = s.2 := by
  cases hkey : mapKey c with
  | error e =>
    rw [AlgInit_unread hkey] at h
    cases h
  | ok strAlgMapKey =>
    rw [AlgInit_read hkey] at h
    rw [modelKey_eq hkey]
    by_cases hold : strAlgMapKey ∈ SortedMap.keys s.1.m_mapAlgModel
    · rw [if_pos hold] at h
      cases h
      exact ⟨iff_of_true rfl (.inl hold), fun k => ⟨.inl, fun h => h.elim id fun heq => heq ▸ hold⟩, rfl, rfl⟩
    · rw [if_neg hold] at h
      rw [or_iff_right hold]
      have htried : ∀ k, k ∈ SortedMap.keys
          (SortedMap.emplace s.1.m_mapAlgModel strAlgMapKey rknn_context.uninitialised) ↔
            k ∈ SortedMap.keys s.1.m_mapAlgModel ∨ k = strAlgMapKey := fun k => SortedMap.mem_keys_emplace
      cases hname : modelName c with
      | error e =>
        rw [hname] at h
        cases h
      | ok strName =>
        rw [hname] at h
        cases hload : c.model_load with
        | false =>
          rw [hload] at h
          cases h
          exact ⟨iff_of_false Bool.false_ne_true Bool.false_ne_true, htried, rfl, rfl⟩
        | true =>
          rw [hload] at h
          cases h
          refine ⟨iff_of_true rfl rfl, fun k => ?_, rfl, rfl⟩
          show k ∈ SortedMap.keys (SortedMap.insert (SortedMap.emplace s.1.m_mapAlgModel _ _) _ _) ↔ _
          rw [SortedMap.keys_insert_of_mem _ ((htried _).mpr (.inr rfl)), htried]

variable [DecidableEq σ] {this : σ}

/-- A new address attaches the object, a known one does not. -/
theorem DataSrcInit_ok {DataSrcCfg : Json} {s s' : DetectAlg × FrameBus σ} {b : Bool}
    (h : DataSrcInit this DataSrcCfg s = .ok b s') :
    s'.1.m_mapAlgModel = s.1.m_mapAlgModel ∧
      (∀ ip, ip ∈ SortedMap.keys s'.1.m_mapDataSrcTopic ↔
        ip ∈ SortedMap.keys s.1.m_mapDataSrcTopic ∨ ip = addressOf DataSrcCfg) ∧
      ∀ t, (s'.2.SendReq t).count this = (s.2.SendReq t).count this +
        if addressOf DataSrcCfg ∉ SortedMap.keys s.1.m_mapDataSrcTopic ∧ topicOf DataSrcCfg = t then 1 else 0 := by
  obtain ⟨⟨strIp, strTopic⟩, _, hfrom, h⟩ := bind_eq_ok.mp h
  obtain ⟨htopic, rfl⟩ := fromExcept_eq_ok.mp hfrom
  obtain ⟨rfl, rfl⟩ := topicOf_of_ok htopic
  obtain ⟨_, s₁, hmod, h⟩ := bind_eq_ok.mp h
  cases hmod
  cases h
  unfold attachDataSrc
  by_cases hold : (SortedMap.find? s.1.m_mapDataSrcTopic (addressOf DataSrcCfg)).isSome = true
  · have hmem : addressOf DataSrcCfg ∈ SortedMap.keys s.1.m_mapDataSrcTopic :=
      SortedMap.mem_keys.mpr (Option.isSome_iff_exists.mp hold)
    rw [if_pos hold]
    refine ⟨rfl, fun ip => ⟨.inl, fun h => h.elim id fun heq => heq ▸ hmem⟩, fun t => ?_⟩
    rw [if_neg fun h => h.1 hmem, Nat.add_zero]
  · have hnew : addressOf DataSrcCfg ∉ SortedMap.keys s.1.m_mapDataSrcTopic := by
      rw [← SortedMap.find?_eq_none]
      exact Option.not_isSome_iff_eq_none.mp hold
    rw [if_neg hold]
    refine ⟨rfl, fun ip => SortedMap.mem_keys_emplace, fun t => ?_⟩
    rw [MessageBus.count_SendReq_Attach]
    simp only [and_true, hnew, not_false_eq_true, true_and]

/-- A call whose model was tried before, or loads, gets to the data source. -/
theorem Init_ok {c : DetectCall} {s s' : DetectAlg × FrameBus σ} {b : Bool} (h : Init this c s = .ok b s') :
    (∀ k, k ∈ SortedMap.keys s'.1.m_mapAlgModel ↔ k ∈ SortedMap.keys s.1.m_mapAlgModel ∨ k = modelKey c) ∧
      if modelKey c ∈ SortedMap.keys s.1.m_mapAlgModel ∨ c.model_load = true then
        (∀ ip, ip ∈ SortedMap.keys s'.1.m_mapDataSrcTopic ↔
          ip ∈ SortedMap.keys s.1.m_mapDataSrcTopic ∨ ip = addressOf c.DataSrcCfg) ∧
        ∀ t, (s'.2.SendReq t).count this = (s.2.SendReq t).count this +
          if addressOf c.DataSrcCfg ∉ SortedMap.keys s.1.m_mapDataSrcTopic ∧ topicOf c.DataSrcCfg = t then 1 else 0
      else s'.1.m_mapDataSrcTopic = s.1.m_mapDataSrcTopic ∧ s'.2 = s.2 := by
  obtain ⟨_, _, hget, h⟩ := bind_eq_ok.mp h
  cases hget
  obtain ⟨topics, _, hfrom, h⟩ := bind_eq_ok.mp h
  obtain ⟨-, rfl⟩ := fromExcept_eq_ok.mp hfrom
  obtain ⟨_, _, hset, h⟩ := bind_eq_ok.mp h
  cases hset
  obtain ⟨loaded, s₁, halg, h⟩ := bind_eq_ok.mp h
  obtain ⟨hloaded, hmodels, hsrc, hbus⟩ := AlgInit_ok halg
  cases loaded with
  | false =>
    cases h
    refine ⟨hmodels, ?_⟩
    rw [if_neg fun hpast => Bool.false_ne_true (hloaded.mpr hpast)]
    exact ⟨hsrc, hbus⟩
  | true =>
    obtain ⟨hmodels₂, hseen, hcount⟩ := DataSrcInit_ok h
    rw [hsrc] at hseen hcount
    rw [hbus] at hcount
    refine ⟨fun k => hmodels₂ ▸ hmodels k, ?_⟩
    rw [if_pos (hloaded.mp rfl)]
    exact ⟨hseen, hcount⟩

/-- The calls of a run, each returning. -/
def run (this : σ) (calls : List DetectCall) : Cmd σ Unit :=
  calls.forM fun c => do
    let _ ← Init this c

theorem run_ok {calls : List DetectCall} {tried seen : List String} {s s' : DetectAlg × FrameBus σ}
    (htried : ∀ k, k ∈ SortedMap.keys s.1.m_mapAlgModel ↔ k ∈ tried)
    (hseen : ∀ ip, ip ∈ SortedMap.keys s.1.m_mapDataSrcTopic ↔ ip ∈ seen) (h : run this calls s = .ok ⟨⟩ s')
    (t : String) :
    (s'.2.SendReq t).count this = (s.2.SendReq t).count this +
      ((firstOfAddress seen (pastAlgInit tried calls)).map fun c => topicOf c.DataSrcCfg).count t := by
  unfold run at h
  induction calls generalizing tried seen s with
  | nil =>
    cases h
    rfl
  | cons c calls ih =>
    obtain ⟨s₁, hturn, h⟩ := forM_cons_eq_ok.mp h
    obtain ⟨b, _, hinit, hturn⟩ := bind_eq_ok.mp hturn
    cases hturn
    obtain ⟨hmodels, hsrc⟩ := Init_ok hinit
    have htried' : ∀ k, k ∈ SortedMap.keys s₁.1.m_mapAlgModel ↔ k ∈ modelKey c :: tried := by
      intro k
      rw [hmodels, List.mem_cons, or_comm, htried]
    simp only [htried, hseen] at hsrc
    rw [pastAlgInit]
    by_cases hpast : modelKey c ∈ tried ∨ c.model_load = true
    · rw [if_pos hpast] at hsrc ⊢
      obtain ⟨hseen₁, hcount⟩ := hsrc
      have hcount := hcount t
      rw [firstOfAddress]
      by_cases hold : addressOf c.DataSrcCfg ∈ seen
      · rw [if_pos hold]
        rw [if_neg fun hn => hn.1 hold, Nat.add_zero] at hcount
        rw [← hcount]
        refine ih htried' (fun ip => ?_) h
        rw [hseen₁]
        exact ⟨fun hip => hip.elim id fun heq => heq ▸ hold, .inl⟩
      · rw [if_neg hold, List.map_cons, List.count_cons]
        have hseen' : ∀ ip, ip ∈ SortedMap.keys s₁.1.m_mapDataSrcTopic ↔ ip ∈ addressOf c.DataSrcCfg :: seen := by
          intro ip
          rw [hseen₁, List.mem_cons, or_comm]
        rw [ih htried' hseen' h, hcount]
        simp only [hold, not_false_eq_true, true_and, beq_iff_eq]
        omega
    · rw [if_neg hpast] at hsrc ⊢
      obtain ⟨hsrc, hbus⟩ := hsrc
      rw [← hbus]
      exact ih htried' (fun ip => hsrc ▸ hseen ip) h

/-- A detection algorithm is attached once for the source of the last call exactly when
one of the first calls for each address has its topic. -/
theorem subscribedOnce_iff {bus : FrameBus σ} (hfree : ∀ t, (bus.SendReq t).count this = 0)
    {calls : List DetectCall} {last : DetectCall} {s : DetectAlg × FrameBus σ}
    (h : run this (calls ++ [last]) (new, bus) = .ok ⟨⟩ s) :
    SubscribedOnce this s.2 [last.DataSrcCfg] ↔ Once calls last := by
  have htried : ∀ k, k ∈ SortedMap.keys (new, bus).1.m_mapAlgModel ↔ k ∈ [] := fun k => Iff.rfl
  have hseen : ∀ ip, ip ∈ SortedMap.keys (new, bus).1.m_mapDataSrcTopic ↔ ip ∈ [] := fun ip => Iff.rfl
  have hcount := run_ok htried hseen h
  simp only [hfree, Nat.zero_add] at hcount
  unfold SubscribedOnce Once
  simp only [hcount, List.forall_mem_singleton]

end DetectAlg

/-- **Frames are processed exactly once** after a sequence of calls on a new object, which
is not on the bus: of a face algorithm, when no source of the last call was given before,
or twice; of a detection algorithm, when the last topic is that of one address. -/
theorem exactly_once_iff {σ : Type} [DecidableEq σ] (this : σ) {bus : FrameBus σ}
    (hfree : ∀ t, (bus.SendReq t).count this = 0) :
    (∀ calls last s, (calls ++ [last]).forM (FaceAlg.Init this) (.new, bus) = .ok ⟨⟩ s →
      (SubscribedOnce this s.2 last.lstDataSrcCfg ↔ FaceAlg.Once calls last)) ∧
      ∀ calls last s, DetectAlg.run this (calls ++ [last]) (.new, bus) = .ok ⟨⟩ s →
        (SubscribedOnce this s.2 [last.DataSrcCfg] ↔ DetectAlg.Once calls last) :=
  ⟨fun _ _ _ h => FaceAlg.subscribedOnce_iff hfree h, fun _ _ _ h => DetectAlg.subscribedOnce_iff hfree h⟩

def helmetCfg : Json := .object [("idx", .string "1"), ("type", .string "HelmetDetect")]

def detectAlgCfg : Json :=
  .object [("idx", .string "1"), ("model", .object [("name", .string "yolov5.rknn")]), ("type", .string "detect")]

def faceCall (lstDataSrcCfg : List Json) : FaceCall := ⟨helmetCfg, lstDataSrcCfg, none⟩
def detectCall (DataSrcCfg : Json) : DetectCall := ⟨helmetCfg, detectAlgCfg, DataSrcCfg, true⟩

/-- Two cameras for a face algorithm, once; one camera for a detection algorithm, twice. -/
theorem exactly_once_first :
    (∃ s, ([] ++ [faceCall [rtspCamera "1" "10.0.78.201" "camera1", rtspCamera "1" "10.0.78.202" "camera2"]]).forM
        (FaceAlg.Init ()) (.new, ⟨[]⟩) = .ok ⟨⟩ s ∧
      SubscribedOnce () s.2 [rtspCamera "1" "10.0.78.201" "camera1", rtspCamera "1" "10.0.78.202" "camera2"]) ∧
      ∃ s, DetectAlg.run () ([detectCall (rtspCamera "1" "10.0.78.201" "camera1")] ++
          [detectCall (rtspCamera "1" "10.0.78.201" "camera1")]) (.new, ⟨[]⟩) = .ok ⟨⟩ s ∧
        SubscribedOnce () s.2 [rtspCamera "1" "10.0.78.201" "camera1"] := by
  have hrun : ∃ s,
      ([] ++ [faceCall [rtspCamera "1" "10.0.78.201" "camera1", rtspCamera "1" "10.0.78.202" "camera2"]]).forM
        (FaceAlg.Init ()) (.new, ⟨[]⟩) = .ok ⟨⟩ s := ⟨_, rfl⟩
  have hrun' : ∃ s, DetectAlg.run () ([detectCall (rtspCamera "1" "10.0.78.201" "camera1")] ++
      [detectCall (rtspCamera "1" "10.0.78.201" "camera1")]) (.new, ⟨[]⟩) = .ok ⟨⟩ s := ⟨_, rfl⟩
  obtain ⟨s, hs⟩ := hrun
  obtain ⟨s', hs'⟩ := hrun'
  refine ⟨⟨s, hs, ((exactly_once_iff () (fun t => rfl)).1 _ _ _ hs).mpr ?_⟩,
    ⟨s', hs', ((exactly_once_iff () (fun t => rfl)).2 _ _ _ hs').mpr ?_⟩⟩
  · intro DataSrcCfg hmem strIp strTopic htopic
    obtain ⟨rfl, -⟩ := topicOf_of_ok htopic
    rcases List.mem_cons.mp hmem with rfl | hmem
    · decide +kernel
    · obtain rfl := List.mem_singleton.mp hmem
      decide +kernel
  · intro strIp strTopic htopic
    obtain ⟨rfl, -⟩ := topicOf_of_ok htopic
    decide +kernel

/-- The same camera again makes a face algorithm work twice on each frame; another code at
the same address leaves a detection algorithm without frames. -/
theorem not_exactly_once_again :
    (∃ s, ([faceCall [rtspCamera "1" "10.0.78.201" "camera1"]] ++
        [faceCall [rtspCamera "1" "10.0.78.201" "camera1"]]).forM (FaceAlg.Init ()) (.new, ⟨[]⟩) = .ok ⟨⟩ s ∧
      s.2.SendReq (RtspStreamTopic "10.0.78.201" "camera1") = [(), ()] ∧
      ¬ SubscribedOnce () s.2 [rtspCamera "1" "10.0.78.201" "camera1"]) ∧
      ∃ s, DetectAlg.run () ([detectCall (rtspCamera "1" "10.0.78.201" "camera1")] ++
          [detectCall (rtspCamera "1" "10.0.78.201" "camera2")]) (.new, ⟨[]⟩) = .ok ⟨⟩ s ∧
        s.2.SendReq (RtspStreamTopic "10.0.78.201" "camera2") = [] ∧
        ¬ SubscribedOnce () s.2 [rtspCamera "1" "10.0.78.201" "camera2"] := by
  have hrun : ∃ s, ([faceCall [rtspCamera "1" "10.0.78.201" "camera1"]] ++
      [faceCall [rtspCamera "1" "10.0.78.201" "camera1"]]).forM (FaceAlg.Init ()) (.new, ⟨[]⟩) = .ok ⟨⟩ s ∧
      s.2.SendReq (RtspStreamTopic "10.0.78.201" "camera1") = [(), ()] := ⟨_, rfl, by decide +kernel⟩
  have hrun' : ∃ s, DetectAlg.run () ([detectCall (rtspCamera "1" "10.0.78.201" "camera1")] ++
      [detectCall (rtspCamera "1" "10.0.78.201" "camera2")]) (.new, ⟨[]⟩) = .ok ⟨⟩ s ∧
      s.2.SendReq (RtspStreamTopic "10.0.78.201" "camera2") = [] := ⟨_, rfl, by decide +kernel⟩
  obtain ⟨s, hs, hsend⟩ := hrun
  obtain ⟨s', hs', hsend'⟩ := hrun'
  refine ⟨⟨s, hs, hsend, fun honce => ?_⟩, ⟨s', hs', hsend', fun honce => ?_⟩⟩
  · have hcount := honce _ (List.mem_singleton_self _) "10.0.78.201" (RtspStreamTopic "10.0.78.201" "camera1") rfl
    rw [hsend] at hcount
    cases hcount
  · have hcount := honce _ (List.mem_singleton_self _) "10.0.78.201" (RtspStreamTopic "10.0.78.201" "camera2") rfl
    rw [hsend'] at hcount
    cases hcount

end Perception.Alg
