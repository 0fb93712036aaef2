import Mathlib.Logic.Function.Basic
import Perception.Lib.Fifo
import Perception.Lib.History
import Perception.Rtsp.FFmpeg
import Perception.Transfer.Cameras

/-!
# The streaming module

Calls of the module change the map of queues and the map of pull-stream objects, one after the other and each under
its own lock; in between pictures come from the clients of the cameras and tasks take them. A pull-stream object
has a weak pointer to the queue that its camera had when the object was made.
-/
namespace Perception.Transfer

set_option autoImplicit false

open Perception.Lib Perception.Lib.History Perception.Rtsp

/-- A pull-stream object, with what its client knows. A queue is known by its address. -/
structure CPullStream where
  m_CamBaseInfo : TCameraBaseInfo
  m_VSQueWekPtr : Option Nat
  m_bRuning : Bool

/-- The maps of `CVSQueueManager` and of `CPullStreamMng`, and the next address. -/
structure Managers where
  m_mapVSObjs : List (String × Nat) := []
  m_mapPSObjs : List (String × CPullStream) := []
  next : Nat := 0

namespace Managers

def QueueIsExist (m : Managers) (strCamCode : String) : Bool := (SortedMap.find? m.m_mapVSObjs strCamCode).isSome

def CameraIsExist (m : Managers) (strCamCode : String) : Bool := (SortedMap.find? m.m_mapPSObjs strCamCode).isSome

def AddQueueObj (m : Managers) (strCamCode : String) : Managers :=
  if m.QueueIsExist strCamCode then m
  else { m with m_mapVSObjs := SortedMap.emplace m.m_mapVSObjs strCamCode m.next, next := m.next + 1 }

def DelQueueObj (m : Managers) (strCamCode : String) : Managers :=
  { m with m_mapVSObjs := SortedMap.erase m.m_mapVSObjs strCamCode }

/-- `CPullStreamMng::AddPullStreamObj`; the constructor of the client asks for the queue. -/
def AddPullStreamObj (m : Managers) (camBaseInfo : TCameraBaseInfo) : Managers :=
  { m with
    m_mapPSObjs := SortedMap.emplace m.m_mapPSObjs camBaseInfo.strCameraCode
      ⟨camBaseInfo, SortedMap.find? m.m_mapVSObjs camBaseInfo.strCameraCode, false⟩ }

def DelPullStreamObj (m : Managers) (strCamCode : String) : Managers :=
  { m with m_mapPSObjs := SortedMap.erase m.m_mapPSObjs strCamCode }

/-- The work on the object of a code, if there is one. -/
def onPullStream (m : Managers) (strCamCode : String) (f : CPullStream → CPullStream) : Managers :=
  match SortedMap.find? m.m_mapPSObjs strCamCode with
  | some obj => { m with m_mapPSObjs := SortedMap.insert m.m_mapPSObjs strCamCode (f obj) }
  | none => m

/-- An object that runs is not started again. -/
def StartPullStreamObj (m : Managers) (strCamCode : String) : Managers :=
  m.onPullStream strCamCode fun obj => { obj with m_bRuning := true }

def UpdateCamBaseInfo (m : Managers) (camBaseInfo : TCameraBaseInfo) : Managers :=
  m.onPullStream camBaseInfo.strCameraCode fun obj => { obj with m_CamBaseInfo := camBaseInfo }

end Managers

/-- A call of one of the two managers. -/
inductive Action
  | AddQueueObj (strCamCode : String)
  | DelQueueObj (strCamCode : String)
  | AddPullStreamObj (camBaseInfo : TCameraBaseInfo)
  | DelPullStreamObj (strCamCode : String)
  | StartPullStreamObj (strCamCode : String)
  | UpdateCamBaseInfo (camBaseInfo : TCameraBaseInfo)

def Managers.act (m : Managers) : Action → Managers
  | .AddQueueObj strCamCode => m.AddQueueObj strCamCode
  | .DelQueueObj strCamCode => m.DelQueueObj strCamCode
  | .AddPullStreamObj camBaseInfo => m.AddPullStreamObj camBaseInfo
  | .DelPullStreamObj strCamCode => m.DelPullStreamObj strCamCode
  | .StartPullStreamObj strCamCode => m.StartPullStreamObj strCamCode
  | .UpdateCamBaseInfo camBaseInfo => m.UpdateCamBaseInfo camBaseInfo

/-- One turn of a loop of `CVideoMng`. -/
inductive Turn
  | StartPullStreamObj (camBaseInfo : TCameraBaseInfo)
  | SyncAddCameraInfo (camBaseInfo : TCameraBaseInfo)
  | DelPullStreamObj (camBaseInfo : TCameraBaseInfo)
  | ModifyPullStreamObj (camBaseInfo : TCameraBaseInfo)

/-- `CVideoMng::AddPullStreamObj`, with whether it adds. -/
def CVideoMng.AddPullStreamObj (m : Managers) (camBaseInfo : TCameraBaseInfo) : List Action × Bool :=
  if m.QueueIsExist camBaseInfo.strCameraCode then ([.UpdateCamBaseInfo camBaseInfo], false)
  else ([.AddQueueObj camBaseInfo.strCameraCode, .AddPullStreamObj camBaseInfo], true)

/-- What a turn does, from what it finds at its start. -/
def Turn.actions (m : Managers) : Turn → List Action
  | .StartPullStreamObj camBaseInfo =>
    let (actions, bAdded) := CVideoMng.AddPullStreamObj m camBaseInfo
    if bAdded then actions ++ [.StartPullStreamObj camBaseInfo.strCameraCode] else actions
  | .SyncAddCameraInfo camBaseInfo =>
    (CVideoMng.AddPullStreamObj m camBaseInfo).1 ++ [.StartPullStreamObj camBaseInfo.strCameraCode]
  | .DelPullStreamObj camBaseInfo =>
    [.DelPullStreamObj camBaseInfo.strCameraCode, .DelQueueObj camBaseInfo.strCameraCode]
  | .ModifyPullStreamObj camBaseInfo =>
    if m.CameraIsExist camBaseInfo.strCameraCode then [.UpdateCamBaseInfo camBaseInfo]
    else
      [.AddQueueObj camBaseInfo.strCameraCode, .AddPullStreamObj camBaseInfo,
        .StartPullStreamObj camBaseInfo.strCameraCode]

/-- The calls of the module that change its cameras. -/
inductive Call
  | StartModule (mapCamera : List (String × TCameraBaseInfo))
  | SyncAddCameraInfo (vecCameraBaseInfo : List TCameraBaseInfo)
  | SyncDelCameraInfo (vecCameraBaseInfo : List TCameraBaseInfo)
  | SyncModifyCameraInfo (vecCameraBaseInfo : List TCameraBaseInfo)

def Call.turns : Call → List Turn
  | .StartModule mapCamera => mapCamera.map fun ele => .StartPullStreamObj ele.2
  | .SyncAddCameraInfo vec => vec.map .SyncAddCameraInfo
  | .SyncDelCameraInfo vec => vec.map .DelPullStreamObj
  | .SyncModifyCameraInfo vec => vec.map .ModifyPullStreamObj

/-- The module with its queues by address and the rest of the call it is in. What arrived and what was taken since a
queue was made is not part of the source. -/
structure CVSModule extends Managers where
  queues : Nat → CVSQueue := fun _ => ⟨0, 0, fun _ => []⟩
  actions : List Action := []
  turns : List Turn := []
  arrived : String → List Mat := fun _ => []
  taken : String → eQueueType → List Mat := fun _ _ => []

inductive ModuleEvent
  | call (c : Call)
  /-- The call goes on by a turn or by an action of it. -/
  | work
  /-- The client of a camera pushes a picture. -/
  | picture (strCamCode : String) (srcMat : Mat)
  | take (strCamCode : String) (QueueType : eQueueType)

namespace CVSModule

/-- No call is made. -/
def Idle (s : CVSModule) : Prop := s.actions = [] ∧ s.turns = []

instance (s : CVSModule) : Decidable s.Idle :=
  decidable_of_iff (s.actions.isEmpty ∧ s.turns.isEmpty) (by simp [Idle])

/-- A queue that is new is empty. -/
def act (s : CVSModule) (a : Action) : CVSModule :=
  match a with
  | .AddQueueObj strCamCode =>
    if s.QueueIsExist strCamCode then s
    else
      { s with
        toManagers := s.toManagers.act a
        queues := Function.update s.queues s.next ⟨0, 0, fun _ => []⟩
        arrived := Function.update s.arrived strCamCode []
        taken := Function.update s.taken strCamCode fun _ => [] }
  | a => { s with toManagers := s.toManagers.act a }

/-- A weak pointer is good while the queue is in the map. -/
def lock (s : CVSModule) (m_VSQueWekPtr : Option Nat) : Option Nat :=
  m_VSQueWekPtr.filter fun a => (s.m_mapVSObjs.map Prod.snd).contains a

/-- The queue that the client of the camera has. -/
def push (s : CVSModule) (obj : CPullStream) (srcMat : Mat) : CVSModule :=
  match s.lock obj.m_VSQueWekPtr with
  | some a => { s with queues := Function.update s.queues a ((s.queues a).push_back srcMat) }
  | none => s

/-- `GetCmmImage` and `GetActImage`. -/
def Pop (s : CVSModule) (strCamCode : String) (QueueType : eQueueType) : Option Mat × CVSModule :=
  match SortedMap.find? s.m_mapVSObjs strCamCode with
  | some a =>
    (((s.queues a).m_VideoStreamQue QueueType).head?,
      { s with queues := Function.update s.queues a ((s.queues a).Pop QueueType) })
  | none => (none, s)

/-- The client of the camera has decoded a picture. -/
def arrive (s : CVSModule) (strCamCode : String) (obj : CPullStream) (srcMat : Mat) : CVSModule :=
  { s.push obj srcMat with arrived := Function.update s.arrived strCamCode (s.arrived strCamCode ++ [srcMat]) }

/-- A task asks for a picture. -/
def take (s : CVSModule) (strCamCode : String) (QueueType : eQueueType) : CVSModule :=
  { (s.Pop strCamCode QueueType).2 with
    taken := Function.update s.taken strCamCode (Function.update (s.taken strCamCode) QueueType
      (s.taken strCamCode QueueType ++ (s.Pop strCamCode QueueType).1.toList)) }

def step (s : CVSModule) : ModuleEvent → Option CVSModule
  | .call c => if s.Idle then some { s with turns := c.turns } else none
  | .work =>
    match s.actions, s.turns with
    | a :: actions, _ => some { s.act a with actions }
    | [], t :: turns => some { s with actions := t.actions s.toManagers, turns }
    | [], [] => none
  | .picture strCamCode srcMat =>
    match SortedMap.find? s.m_mapPSObjs strCamCode with
    | some obj => if obj.m_bRuning then some (s.arrive strCamCode obj srcMat) else none
    | none => none
  | .take strCamCode QueueType => some (s.take strCamCode QueueType)

end CVSModule

namespace Managers

/-- Each queue has its address for itself, and an object has the queue of its camera. -/
structure Sound (m : Managers) : Prop where
  fresh : ∀ c a, SortedMap.find? m.m_mapVSObjs c = some a → a < m.next
  apart : ∀ c c' a, SortedMap.find? m.m_mapVSObjs c = some a → SortedMap.find? m.m_mapVSObjs c' = some a → c = c'
  pointer : ∀ c obj, SortedMap.find? m.m_mapPSObjs c = some obj →
    ∃ a, obj.m_VSQueWekPtr = some a ∧ SortedMap.find? m.m_mapVSObjs c = some a

/-- Each queue has an object that runs. -/
def Aligned (m : Managers) : Prop :=
  ∀ c a, SortedMap.find? m.m_mapVSObjs c = some a → ∃ obj, SortedMap.find? m.m_mapPSObjs c = some obj ∧ obj.m_bRuning

/-- An object is made when there is a queue for it, and a queue is deleted when there is no object. -/
def Allowed (m : Managers) : Action → Prop
  | .AddPullStreamObj camBaseInfo => m.QueueIsExist camBaseInfo.strCameraCode
  | .DelQueueObj strCamCode => SortedMap.find? m.m_mapPSObjs strCamCode = none
  | _ => True

variable {m : Managers} {c c' : String} {a : Action} {f : CPullStream → CPullStream} {camBaseInfo : TCameraBaseInfo}

theorem queueIsExist_iff : m.QueueIsExist c = true ↔ ∃ a, SortedMap.find? m.m_mapVSObjs c = some a :=
  Option.isSome_iff_exists

theorem queueIsExist_eq_false : ¬m.QueueIsExist c = true ↔ SortedMap.find? m.m_mapVSObjs c = none :=
  Option.not_isSome_iff_eq_none

theorem AddQueueObj_of_exist (h : m.QueueIsExist c = true) : m.AddQueueObj c = m := if_pos h

theorem AddQueueObj_of_new (h : ¬m.QueueIsExist c = true) :
    m.AddQueueObj c =
      { m with m_mapVSObjs := SortedMap.emplace m.m_mapVSObjs c m.next, next := m.next + 1 } := if_neg h

theorem find?_queue_new (h : ¬m.QueueIsExist c = true) :
    SortedMap.find? (SortedMap.emplace m.m_mapVSObjs c m.next) c' =
      if c' = c then some m.next else SortedMap.find? m.m_mapVSObjs c' := by
  rw [SortedMap.find?_emplace]
  by_cases hc : c' = c
  · rw [hc, queueIsExist_eq_false.mp h, if_pos rfl, Option.none_or]
  · rw [if_neg hc, if_neg hc, Option.or_none]

theorem find?_onPullStream :
    SortedMap.find? (m.onPullStream c f).m_mapPSObjs c' =
      if c' = c then (SortedMap.find? m.m_mapPSObjs c).map f else SortedMap.find? m.m_mapPSObjs c' := by
  unfold onPullStream
  split
  · next obj hobj => rw [SortedMap.find?_insert, hobj, Option.map_some]
  · next hnone =>
    rw [hnone, Option.map_none]
    split
    · next hc => rw [hc, hnone]
    · rfl

@[simp] theorem m_mapVSObjs_onPullStream : (m.onPullStream c f).m_mapVSObjs = m.m_mapVSObjs := by
  unfold onPullStream
  split
  · rfl
  · rfl

@[simp] theorem next_onPullStream : (m.onPullStream c f).next = m.next := by
  unfold onPullStream
  split
  · rfl
  · rfl

theorem Sound.onPullStream (h : m.Sound) (hf : ∀ obj, (f obj).m_VSQueWekPtr = obj.m_VSQueWekPtr) :
    (m.onPullStream c f).Sound where
  fresh := by
    rw [m_mapVSObjs_onPullStream, next_onPullStream]
    exact h.fresh
  apart := by
    rw [m_mapVSObjs_onPullStream]
    exact h.apart
  pointer := by
    intro c' obj hobj
    rw [m_mapVSObjs_onPullStream]
    rw [find?_onPullStream] at hobj
    split at hobj
    · next hc =>
      obtain ⟨obj', hobj', rfl⟩ := Option.map_eq_some_iff.mp hobj
      rw [hf, hc]
      exact h.pointer c obj' hobj'
    · exact h.pointer c' obj hobj

theorem Sound.AddQueueObj (h : m.Sound) (c : String) : (m.AddQueueObj c).Sound := by
  by_cases hexist : m.QueueIsExist c = true
  · rw [AddQueueObj_of_exist hexist]
    exact h
  · rw [AddQueueObj_of_new hexist]
    constructor
    · intro c' a ha
      rw [find?_queue_new hexist] at ha
      split at ha
      · cases ha
        exact Nat.lt_succ_self _
      · exact Nat.lt_succ_of_lt (h.fresh c' a ha)
    · intro c₁ c₂ a h₁ h₂
      rw [find?_queue_new hexist] at h₁ h₂
      split at h₁
      · next hc₁ =>
        split at h₂
        · next hc₂ => rw [hc₁, hc₂]
        · cases h₁
          exact absurd (h.fresh c₂ _ h₂) (Nat.lt_irrefl _)
      · split at h₂
        · cases h₂
          exact absurd (h.fresh c₁ _ h₁) (Nat.lt_irrefl _)
        · exact h.apart c₁ c₂ a h₁ h₂
    · intro c' obj hobj
      obtain ⟨a, hptr, ha⟩ := h.pointer c' obj hobj
      refine ⟨a, hptr, ?_⟩
      rw [find?_queue_new hexist, if_neg, ha]
      rintro rfl
      exact hexist (queueIsExist_iff.mpr ⟨a, ha⟩)

theorem Sound.DelQueueObj (h : m.Sound) (hnone : SortedMap.find? m.m_mapPSObjs c = none) : (m.DelQueueObj c).Sound where
  fresh := by
    intro c' a ha
    rw [Managers.DelQueueObj, SortedMap.find?_erase] at ha
    split at ha
    · cases ha
    · exact h.fresh c' a ha
  apart := by
    intro c₁ c₂ a h₁ h₂
    rw [Managers.DelQueueObj, SortedMap.find?_erase] at h₁ h₂
    split at h₁
    · cases h₁
    · split at h₂
      · cases h₂
      · exact h.apart c₁ c₂ a h₁ h₂
  pointer := by
    intro c' obj hobj
    obtain ⟨a, hptr, ha⟩ := h.pointer c' obj hobj
    refine ⟨a, hptr, ?_⟩
    rw [Managers.DelQueueObj, SortedMap.find?_erase, if_neg, ha]
    rintro rfl
    rw [show SortedMap.find? m.m_mapPSObjs c' = some obj from hobj] at hnone
    cases hnone

theorem find?_AddPullStreamObj :
    SortedMap.find? (m.AddPullStreamObj camBaseInfo).m_mapPSObjs c =
      (SortedMap.find? m.m_mapPSObjs c).or (if c = camBaseInfo.strCameraCode then
        some ⟨camBaseInfo, SortedMap.find? m.m_mapVSObjs camBaseInfo.strCameraCode, false⟩ else none) :=
  SortedMap.find?_emplace _ _ _ _

theorem Sound.AddPullStreamObj (h : m.Sound) (hqueue : m.QueueIsExist camBaseInfo.strCameraCode = true) :
    (m.AddPullStreamObj camBaseInfo).Sound where
  fresh := h.fresh
  apart := h.apart
  pointer := by
    intro c obj hobj
    rw [find?_AddPullStreamObj] at hobj
    rcases Option.or_eq_some_iff.mp hobj with hobj | ⟨-, hobj⟩
    · exact h.pointer c obj hobj
    · split at hobj
      · next hc =>
        cases hobj
        obtain ⟨a, ha⟩ := queueIsExist_iff.mp hqueue
        rw [hc]
        exact ⟨a, ha, ha⟩
      · cases hobj

theorem Sound.DelPullStreamObj (h : m.Sound) : (m.DelPullStreamObj c).Sound where
  fresh := h.fresh
  apart := h.apart
  pointer := by
    intro c' obj hobj
    rw [Managers.DelPullStreamObj, SortedMap.find?_erase] at hobj
    split at hobj
    · cases hobj
    · exact h.pointer c' obj hobj

theorem Sound.act (h : m.Sound) (hallowed : m.Allowed a) : (m.act a).Sound := by
  cases a with
  | AddQueueObj c => exact h.AddQueueObj c
  | DelQueueObj c => exact h.DelQueueObj hallowed
  | AddPullStreamObj camBaseInfo => exact h.AddPullStreamObj hallowed
  | DelPullStreamObj c => exact h.DelPullStreamObj
  | StartPullStreamObj c => exact h.onPullStream fun _ => rfl
  | UpdateCamBaseInfo camBaseInfo => exact h.onPullStream fun _ => rfl

/-- The rest of a turn is allowed action by action, and afterwards each queue has an object that runs. -/
def Ready (m : Managers) : List Action → Prop
  | [] => m.Aligned
  | a :: actions => m.Allowed a ∧ (m.act a).Ready actions

/-- What the client of each camera is told. -/
def infos (m : Managers) (c : String) : Option TCameraBaseInfo :=
  (SortedMap.find? m.m_mapPSObjs c).map CPullStream.m_CamBaseInfo

theorem infos_onPullStream (hf : ∀ obj, (f obj).m_CamBaseInfo = obj.m_CamBaseInfo) :
    (m.onPullStream c f).infos = m.infos := by
  funext c'
  unfold infos
  rw [find?_onPullStream]
  split
  · next hc =>
    subst hc
    rw [Option.map_map]
    congr 1
    funext obj
    exact hf obj
  · rfl

theorem infos_StartPullStreamObj : (m.StartPullStreamObj c).infos = m.infos := infos_onPullStream fun _ => rfl

theorem infos_UpdateCamBaseInfo {obj : CPullStream}
    (hobj : SortedMap.find? m.m_mapPSObjs camBaseInfo.strCameraCode = some obj) :
    (m.UpdateCamBaseInfo camBaseInfo).infos = Function.update m.infos camBaseInfo.strCameraCode (some camBaseInfo) := by
  funext c'
  unfold infos UpdateCamBaseInfo
  rw [find?_onPullStream]
  by_cases hc : c' = camBaseInfo.strCameraCode
  · subst hc
    rw [if_pos rfl, hobj, Function.update_self]
    rfl
  · rw [if_neg hc, Function.update_of_ne hc]

theorem infos_AddPullStreamObj (hnone : SortedMap.find? m.m_mapPSObjs camBaseInfo.strCameraCode = none) :
    (m.AddPullStreamObj camBaseInfo).infos = Function.update m.infos camBaseInfo.strCameraCode (some camBaseInfo) := by
  funext c'
  unfold infos
  rw [find?_AddPullStreamObj]
  by_cases hc : c' = camBaseInfo.strCameraCode
  · subst hc
    rw [if_pos rfl, hnone, Function.update_self]
    rfl
  · rw [if_neg hc, Option.or_none, Function.update_of_ne hc]

theorem infos_DelPullStreamObj : (m.DelPullStreamObj c).infos = Function.update m.infos c none := by
  funext c'
  unfold infos DelPullStreamObj
  rw [SortedMap.find?_erase]
  by_cases hc : c' = c
  · rw [if_pos hc, hc, Function.update_self]
    rfl
  · rw [if_neg hc, Function.update_of_ne hc]

theorem m_mapPSObjs_AddQueueObj : (m.AddQueueObj c).m_mapPSObjs = m.m_mapPSObjs := by
  unfold AddQueueObj
  split
  · rfl
  · rfl

theorem queueIsExist_AddQueueObj : (m.AddQueueObj c).QueueIsExist c = true := by
  by_cases hexist : m.QueueIsExist c = true
  · rw [AddQueueObj_of_exist hexist]
    exact hexist
  · rw [AddQueueObj_of_new hexist, queueIsExist_iff]
    exact ⟨m.next, by rw [find?_queue_new hexist, if_pos rfl]⟩

/-- A camera without an object has none for its queue either. -/
theorem Aligned.find?_eq_none (h : m.Aligned) (hnone : SortedMap.find? m.m_mapPSObjs c = none) :
    ¬m.QueueIsExist c = true := by
  intro hexist
  obtain ⟨a, ha⟩ := queueIsExist_iff.mp hexist
  obtain ⟨obj, hobj, -⟩ := h c a ha
  rw [hnone] at hobj
  cases hobj

theorem Sound.find?_eq_none (h : m.Sound) (hqueue : ¬m.QueueIsExist c = true) :
    SortedMap.find? m.m_mapPSObjs c = none := by
  cases hobj : SortedMap.find? m.m_mapPSObjs c with
  | none => rfl
  | some obj =>
    obtain ⟨a, -, ha⟩ := h.pointer c obj hobj
    exact absurd (queueIsExist_iff.mpr ⟨a, ha⟩) hqueue

/-- The actions for a camera that is new. -/
def addActions (camBaseInfo : TCameraBaseInfo) : List Action :=
  [.AddQueueObj camBaseInfo.strCameraCode, .AddPullStreamObj camBaseInfo,
    .StartPullStreamObj camBaseInfo.strCameraCode]

theorem find?_queue_addActions (hqueue : ¬m.QueueIsExist camBaseInfo.strCameraCode = true)
    (hc : c ≠ camBaseInfo.strCameraCode) :
    SortedMap.find? (m.AddQueueObj camBaseInfo.strCameraCode).m_mapVSObjs c = SortedMap.find? m.m_mapVSObjs c := by
  rw [AddQueueObj_of_new hqueue, find?_queue_new hqueue, if_neg hc]

theorem ready_addActions (h : m.Sound) (hal : m.Aligned) (hqueue : ¬m.QueueIsExist camBaseInfo.strCameraCode = true) :
    m.Ready (addActions camBaseInfo) := by
  have hnone := h.find?_eq_none hqueue
  refine ⟨trivial, queueIsExist_AddQueueObj, trivial, ?_⟩
  intro c a ha
  have ha : SortedMap.find? (m.AddQueueObj camBaseInfo.strCameraCode).m_mapVSObjs c = some a := by
    rw [← ha]
    show _ = SortedMap.find? (onPullStream _ _ _).m_mapVSObjs c
    rw [m_mapVSObjs_onPullStream]
    rfl
  show ∃ obj, SortedMap.find? (onPullStream _ _ _).m_mapPSObjs c = some obj ∧ obj.m_bRuning
  rw [find?_onPullStream]
  show ∃ obj, (if c = camBaseInfo.strCameraCode then
      (SortedMap.find? (AddPullStreamObj (AddQueueObj _ _) _).m_mapPSObjs camBaseInfo.strCameraCode).map _
    else SortedMap.find? (AddPullStreamObj (AddQueueObj _ _) _).m_mapPSObjs c) = some obj ∧ obj.m_bRuning
  rw [find?_AddPullStreamObj, find?_AddPullStreamObj, m_mapPSObjs_AddQueueObj, hnone, if_pos rfl, Option.none_or]
  by_cases hc : c = camBaseInfo.strCameraCode
  · rw [if_pos hc]
    exact ⟨_, rfl, rfl⟩
  · rw [if_neg hc, if_neg hc, Option.or_none]
    rw [find?_queue_addActions hqueue hc] at ha
    exact hal c a ha

/-- Work on an object that keeps it running. -/
theorem Aligned.onPullStream (hal : m.Aligned) (hf : ∀ obj, obj.m_bRuning = true → (f obj).m_bRuning = true) :
    (m.onPullStream c f).Aligned := by
  intro c' a ha
  rw [m_mapVSObjs_onPullStream] at ha
  obtain ⟨obj, hobj, hruns⟩ := hal c' a ha
  rw [find?_onPullStream]
  by_cases hc : c' = c
  · subst hc
    rw [if_pos rfl, hobj]
    exact ⟨f obj, rfl, hf obj hruns⟩
  · rw [if_neg hc]
    exact ⟨obj, hobj, hruns⟩

theorem Aligned.delete (hal : m.Aligned) : ((m.DelPullStreamObj c).DelQueueObj c).Aligned := by
  intro c' a ha
  have ha : SortedMap.find? (SortedMap.erase m.m_mapVSObjs c) c' = some a := ha
  show ∃ obj, SortedMap.find? (SortedMap.erase m.m_mapPSObjs c) c' = some obj ∧ obj.m_bRuning
  rw [SortedMap.find?_erase] at ha ⊢
  split at ha
  · cases ha
  · next hc =>
    rw [if_neg hc]
    exact hal c' a ha

theorem find?_DelPullStreamObj : SortedMap.find? (m.DelPullStreamObj c).m_mapPSObjs c = none := by
  unfold DelPullStreamObj
  rw [SortedMap.find?_erase, if_pos rfl]

/-- What a turn is for: its camera has this configuration, or there is no such camera any more. -/
def put (camBaseInfo : TCameraBaseInfo) (cameras : String → Option TCameraBaseInfo) : String → Option TCameraBaseInfo :=
  Function.update cameras camBaseInfo.strCameraCode (some camBaseInfo)

/-- What a turn comes to, by what it finds. -/
inductive Outcome (m : Managers) (actions : List Action) (cameras cameras' : String → Option TCameraBaseInfo) : Prop
  | added (camBaseInfo : TCameraBaseInfo) (hqueue : ¬m.QueueIsExist camBaseInfo.strCameraCode = true)
    (hactions : actions = addActions camBaseInfo) (hput : cameras' = put camBaseInfo cameras)
  | updated (camBaseInfo : TCameraBaseInfo) (obj : CPullStream)
    (hobj : SortedMap.find? m.m_mapPSObjs camBaseInfo.strCameraCode = some obj)
    (hactions : actions = [.UpdateCamBaseInfo camBaseInfo]) (hput : cameras' = put camBaseInfo cameras)
  | restarted (camBaseInfo : TCameraBaseInfo) (obj : CPullStream)
    (hobj : SortedMap.find? m.m_mapPSObjs camBaseInfo.strCameraCode = some obj)
    (hactions : actions = [.UpdateCamBaseInfo camBaseInfo, .StartPullStreamObj camBaseInfo.strCameraCode])
    (hput : cameras' = put camBaseInfo cameras)
  | deleted (c : String) (hactions : actions = [.DelPullStreamObj c, .DelQueueObj c])
    (hdrop : cameras' = Function.update cameras c none)

end Managers

/-- What a turn makes of the configured cameras. -/
def Turn.configures (cameras : String → Option TCameraBaseInfo) : Turn → String → Option TCameraBaseInfo
  | .StartPullStreamObj camBaseInfo => Managers.put camBaseInfo cameras
  | .SyncAddCameraInfo camBaseInfo => Managers.put camBaseInfo cameras
  | .DelPullStreamObj camBaseInfo => Function.update cameras camBaseInfo.strCameraCode none
  | .ModifyPullStreamObj camBaseInfo => Managers.put camBaseInfo cameras

namespace Managers

variable {m : Managers} {actions : List Action} {cameras cameras' : String → Option TCameraBaseInfo}

theorem AddPullStreamObj_eq (info : TCameraBaseInfo) :
    m.QueueIsExist info.strCameraCode = true ∧
        CVideoMng.AddPullStreamObj m info = ([.UpdateCamBaseInfo info], false) ∨
      ¬m.QueueIsExist info.strCameraCode = true ∧
        CVideoMng.AddPullStreamObj m info = ([.AddQueueObj info.strCameraCode, .AddPullStreamObj info], true) := by
  unfold CVideoMng.AddPullStreamObj
  by_cases hqueue : m.QueueIsExist info.strCameraCode = true
  · exact .inl ⟨hqueue, if_pos hqueue⟩
  · exact .inr ⟨hqueue, if_neg hqueue⟩

theorem outcome (hal : m.Aligned) (t : Turn) (cameras : String → Option TCameraBaseInfo) :
    m.Outcome (t.actions m) cameras (t.configures cameras) := by
  have hobj : ∀ c, m.QueueIsExist c = true → ∃ obj, SortedMap.find? m.m_mapPSObjs c = some obj := by
    intro c hqueue
    obtain ⟨a, ha⟩ := queueIsExist_iff.mp hqueue
    obtain ⟨obj, hobj, -⟩ := hal c a ha
    exact ⟨obj, hobj⟩
  cases t with
  | StartPullStreamObj info =>
    obtain ⟨hqueue, hadd⟩ | ⟨hqueue, hadd⟩ := AddPullStreamObj_eq (m := m) info
    · obtain ⟨obj, hobj⟩ := hobj _ hqueue
      refine .updated info obj hobj ?_ rfl
      rw [Turn.actions, hadd]
      rfl
    · refine .added info hqueue ?_ rfl
      rw [Turn.actions, hadd]
      rfl
  | SyncAddCameraInfo info =>
    obtain ⟨hqueue, hadd⟩ | ⟨hqueue, hadd⟩ := AddPullStreamObj_eq (m := m) info
    · obtain ⟨obj, hobj⟩ := hobj _ hqueue
      refine .restarted info obj hobj ?_ rfl
      rw [Turn.actions, hadd]
      rfl
    · refine .added info hqueue ?_ rfl
      rw [Turn.actions, hadd]
      rfl
  | DelPullStreamObj info => exact .deleted info.strCameraCode rfl rfl
  | ModifyPullStreamObj info =>
    by_cases hexist : m.CameraIsExist info.strCameraCode = true
    · obtain ⟨obj, hobj⟩ := Option.isSome_iff_exists.mp hexist
      exact .updated info obj hobj (if_pos hexist) rfl
    · have hqueue := hal.find?_eq_none (Option.not_isSome_iff_eq_none.mp hexist)
      exact .added info hqueue (if_neg hexist) rfl

/-- Every turn is ready at its start. -/
theorem Outcome.ready (h : m.Sound) (hal : m.Aligned) (hout : m.Outcome actions cameras cameras') :
    m.Ready actions := by
  have hupdate : ∀ info, (m.UpdateCamBaseInfo info).Aligned := fun info => hal.onPullStream fun _ hruns => hruns
  cases hout with
  | added info hqueue hactions hput =>
    rw [hactions]
    exact ready_addActions h hal hqueue
  | updated info obj hobj hactions hput =>
    rw [hactions]
    exact ⟨trivial, hupdate info⟩
  | restarted info obj hobj hactions hput =>
    rw [hactions]
    exact ⟨trivial, trivial, (hupdate info).onPullStream fun _ _ => rfl⟩
  | deleted c hactions hdrop =>
    rw [hactions]
    exact ⟨trivial, find?_DelPullStreamObj, hal.delete⟩

/-- What a turn is for is what it leaves. -/
theorem Outcome.infos (h : m.Sound) (hout : m.Outcome actions m.infos cameras') :
    (actions.foldl act m).infos = cameras' := by
  cases hout with
  | added info hqueue hactions hput =>
    have hnone : SortedMap.find? (m.AddQueueObj info.strCameraCode).m_mapPSObjs info.strCameraCode = none := by
      rw [m_mapPSObjs_AddQueueObj]
      exact h.find?_eq_none hqueue
    rw [hactions, hput]
    show (StartPullStreamObj (AddPullStreamObj (AddQueueObj _ _) _) _).infos = _
    rw [infos_StartPullStreamObj, infos_AddPullStreamObj hnone]
    unfold Managers.infos
    rw [m_mapPSObjs_AddQueueObj]
    rfl
  | updated info obj hobj hactions hput =>
    rw [hactions, hput]
    exact infos_UpdateCamBaseInfo hobj
  | restarted info obj hobj hactions hput =>
    rw [hactions, hput]
    show (StartPullStreamObj (UpdateCamBaseInfo _ _) _).infos = _
    rw [infos_StartPullStreamObj]
    exact infos_UpdateCamBaseInfo hobj
  | deleted c hactions hdrop =>
    rw [hactions, hdrop]
    exact infos_DelPullStreamObj

end Managers

namespace CVSModule

variable {s s' : CVSModule} {e : ModuleEvent} {cameras : String → Option TCameraBaseInfo}

/-- The cameras that the calls configure. -/
def configured (cameras : String → Option TCameraBaseInfo) : ModuleEvent → String → Option TCameraBaseInfo
  | .call c => c.turns.foldl Turn.configures cameras
  | _ => cameras

theorem act_AddQueueObj_of_exist {c : String} (h : s.QueueIsExist c = true) : s.act (.AddQueueObj c) = s := if_pos h

theorem act_AddQueueObj_of_new {c : String} (h : ¬s.QueueIsExist c = true) :
    s.act (.AddQueueObj c) =
      { s with
        toManagers := s.toManagers.act (.AddQueueObj c)
        queues := Function.update s.queues s.next ⟨0, 0, fun _ => []⟩
        arrived := Function.update s.arrived c []
        taken := Function.update s.taken c fun _ => [] } := if_neg h

theorem act_spec (s : CVSModule) (a : Action) :
    (s.act a).toManagers = s.toManagers.act a ∧ (s.act a).turns = s.turns := by
  cases a with
  | AddQueueObj c =>
    by_cases hqueue : s.QueueIsExist c = true
    · rw [act_AddQueueObj_of_exist hqueue]
      exact ⟨(Managers.AddQueueObj_of_exist hqueue).symm, rfl⟩
    · rw [act_AddQueueObj_of_new hqueue]
      exact ⟨rfl, rfl⟩
  | DelQueueObj c => exact ⟨rfl, rfl⟩
  | AddPullStreamObj info => exact ⟨rfl, rfl⟩
  | DelPullStreamObj c => exact ⟨rfl, rfl⟩
  | StartPullStreamObj c => exact ⟨rfl, rfl⟩
  | UpdateCamBaseInfo info => exact ⟨rfl, rfl⟩

/-- Pictures do not change what is done with the cameras. -/
theorem arrive_spec (s : CVSModule) (c : String) (obj : CPullStream) (srcMat : Mat) :
    (s.arrive c obj srcMat).toManagers = s.toManagers ∧ (s.arrive c obj srcMat).actions = s.actions ∧
      (s.arrive c obj srcMat).turns = s.turns := by
  unfold arrive push
  split
  · exact ⟨rfl, rfl, rfl⟩
  · exact ⟨rfl, rfl, rfl⟩

theorem take_spec (s : CVSModule) (c : String) (type : eQueueType) :
    (s.take c type).toManagers = s.toManagers ∧ (s.take c type).actions = s.actions ∧
      (s.take c type).turns = s.turns := by
  unfold take Pop
  split
  · exact ⟨rfl, rfl, rfl⟩
  · exact ⟨rfl, rfl, rfl⟩

/-- The maps are sound, the rest of the call is allowed, and it leads to the configured cameras. -/
structure Inv (cameras : String → Option TCameraBaseInfo) (s : CVSModule) : Prop where
  sound : s.toManagers.Sound
  ready : s.toManagers.Ready s.actions
  leads : s.turns.foldl Turn.configures (s.actions.foldl Managers.act s.toManagers).infos = cameras

theorem inv_new : Inv (fun _ => none) {} where
  sound := ⟨nofun, nofun, nofun⟩
  ready := nofun
  leads := rfl

theorem Inv.of_eq (h : s.Inv cameras) (hmaps : s'.toManagers = s.toManagers) (hactions : s'.actions = s.actions)
    (hturns : s'.turns = s.turns) : s'.Inv cameras where
  sound := hmaps ▸ h.sound
  ready := by
    rw [hmaps, hactions]
    exact h.ready
  leads := by
    rw [hmaps, hactions, hturns]
    exact h.leads

theorem Inv.step (h : s.Inv cameras) (hstep : step s e = some s') : s'.Inv (configured cameras e) := by
  cases e with
  | call c =>
    simp only [CVSModule.step] at hstep
    split at hstep
    · next hidle =>
      cases hstep
      refine ⟨h.sound, h.ready, ?_⟩
      have hleads := h.leads
      rw [hidle.1, hidle.2] at hleads
      show c.turns.foldl Turn.configures (s.actions.foldl Managers.act s.toManagers).infos = _
      rw [hidle.1]
      exact congrArg (c.turns.foldl Turn.configures) hleads
    · cases hstep
  | work =>
    simp only [CVSModule.step] at hstep
    split at hstep
    · next a actions hactions =>
      cases hstep
      obtain ⟨hsound, hready, hleads⟩ := h
      obtain ⟨hmaps, hturns'⟩ := act_spec s a
      rw [hactions] at hready hleads
      refine ⟨?_, ?_, ?_⟩
      · show (s.act a).toManagers.Sound
        rw [hmaps]
        exact hsound.act hready.1
      · show (s.act a).toManagers.Ready actions
        rw [hmaps]
        exact hready.2
      · show (s.act a).turns.foldl Turn.configures (actions.foldl Managers.act (s.act a).toManagers).infos = _
        rw [hmaps, hturns']
        exact hleads
    · next t turns hactions hturns =>
      cases hstep
      obtain ⟨hsound, hready, hleads⟩ := h
      rw [hactions] at hready hleads
      rw [hturns] at hleads
      have hout := Managers.outcome hready t s.toManagers.infos
      refine ⟨hsound, hout.ready hsound hready, ?_⟩
      show turns.foldl Turn.configures ((t.actions s.toManagers).foldl Managers.act s.toManagers).infos = _
      rw [hout.infos hsound]
      exact hleads
    · cases hstep
  | picture c srcMat =>
    simp only [CVSModule.step] at hstep
    split at hstep
    · next obj hobj =>
      split at hstep
      · cases hstep
        obtain ⟨hmaps, hactions, hturns⟩ := arrive_spec s c obj srcMat
        exact h.of_eq hmaps hactions hturns
      · cases hstep
    · cases hstep
  | take c type =>
    cases hstep
    obtain ⟨hmaps, hactions, hturns⟩ := take_spec s c type
    exact h.of_eq hmaps hactions hturns

theorem Inv.run {es : List ModuleEvent} (h : s.Inv cameras) (hrun : run CVSModule.step s es = some s') :
    s'.Inv (es.foldl configured cameras) := by
  induction es generalizing s cameras with
  | nil =>
    cases hrun
    exact h
  | cons e es ih =>
    obtain ⟨s₁, h₁, hrun⟩ := run_cons_eq_some.mp hrun
    exact ih (h.step h₁) hrun

theorem lock_of_find? {c : String} {a : Nat} (ha : SortedMap.find? s.m_mapVSObjs c = some a) :
    s.lock (some a) = some a := by
  unfold lock
  rw [Option.filter_some, if_pos]
  rw [List.contains_iff_mem]
  exact List.mem_map_of_mem (SortedMap.mem_of_find? ha)

/-- Between the calls, whatever pictures came and went meanwhile, the module has the cameras that the calls
configured, each with its last configuration, a queue and an object that runs and has that queue. -/
theorem cameras_configured (es : List ModuleEvent) (s : CVSModule) (hrun : run step {} es = some s) (hidle : s.Idle)
    (c : String) :
    (SortedMap.find? s.m_mapPSObjs c).map CPullStream.m_CamBaseInfo = es.foldl configured (fun _ => none) c ∧
      ((SortedMap.find? s.m_mapVSObjs c).isSome ↔ (SortedMap.find? s.m_mapPSObjs c).isSome) ∧
      ∀ obj, SortedMap.find? s.m_mapPSObjs c = some obj →
        obj.m_bRuning ∧ s.lock obj.m_VSQueWekPtr = SortedMap.find? s.m_mapVSObjs c := by
  obtain ⟨hsound, hready, hleads⟩ := inv_new.run hrun
  rw [hidle.1] at hready hleads
  rw [hidle.2] at hleads
  refine ⟨congrFun hleads c, ⟨fun hqueue => ?_, fun hobj => ?_⟩, fun obj hobj => ?_⟩
  · obtain ⟨a, ha⟩ := Option.isSome_iff_exists.mp hqueue
    obtain ⟨obj, hobj, -⟩ := hready c a ha
    exact Option.isSome_of_eq_some hobj
  · obtain ⟨obj, hobj⟩ := Option.isSome_iff_exists.mp hobj
    obtain ⟨a, -, ha⟩ := hsound.pointer c obj hobj
    exact Option.isSome_of_eq_some ha
  · obtain ⟨a, hptr, ha⟩ := hsound.pointer c obj hobj
    obtain ⟨obj', hobj', hruns⟩ := hready c a ha
    rw [hobj] at hobj'
    obtain rfl := Option.some.inj hobj'
    refine ⟨hruns, ?_⟩
    rw [hptr, ha]
    exact lock_of_find? ha

/-- The pictures that wait for a task. -/
def waiting (s : CVSModule) (c : String) (type : eQueueType) : List Mat :=
  match SortedMap.find? s.m_mapVSObjs c with
  | some a => (s.queues a).m_VideoStreamQue type
  | none => []

/-- A queue of a camera since it was made. -/
def fifo (s : CVSModule) (c : String) (type : eQueueType) : Fifo Mat :=
  ⟨s.waiting c type, s.arrived c, s.taken c type⟩

variable {c c' : String} {type type' : eQueueType} {a : Nat}

theorem waiting_of_find? (ha : SortedMap.find? s.m_mapVSObjs c = some a) :
    s.waiting c type = (s.queues a).m_VideoStreamQue type := by
  unfold waiting
  rw [ha]

theorem waiting_of_none (hnone : SortedMap.find? s.m_mapVSObjs c = none) : s.waiting c type = [] := by
  unfold waiting
  rw [hnone]

/-- The queues of the other cameras have other addresses. -/
theorem waiting_of_ne {que : CVSQueue} (h : s.toManagers.Sound) (ha : SortedMap.find? s.m_mapVSObjs c = some a)
    (hc : c' ≠ c) (hmaps : s'.toManagers = s.toManagers) (hqueues : s'.queues = Function.update s.queues a que) :
    s'.waiting c' type = s.waiting c' type := by
  unfold waiting
  rw [hmaps, hqueues]
  cases ha' : SortedMap.find? s.m_mapVSObjs c' with
  | none => rfl
  | some a' =>
    have hne : a' ≠ a := by
      rintro rfl
      exact hc (h.apart c' c a' ha' ha)
    simp only [Function.update_of_ne hne]

/-- A picture arrives at the queues of its camera, and at no other. -/
theorem fifo_arrive {obj : CPullStream} (srcMat : Mat) (h : s.toManagers.Sound)
    (hobj : SortedMap.find? s.m_mapPSObjs c = some obj) :
    (∀ type, (s.arrive c obj srcMat).fifo c type = (s.fifo c type).arrive CVSQueue.gTaskQueueCapacity srcMat) ∧
      ∀ c' ≠ c, ∀ type, (s.arrive c obj srcMat).fifo c' type = s.fifo c' type := by
  obtain ⟨a, hptr, ha⟩ := h.pointer c obj hobj
  obtain ⟨hmaps, -, -⟩ := arrive_spec s c obj srcMat
  have hqueues : (s.arrive c obj srcMat).queues = Function.update s.queues a ((s.queues a).push_back srcMat) := by
    unfold arrive push
    rw [hptr, lock_of_find? ha]
  have hnone : (s.arrive c obj srcMat).taken = s.taken := by
    unfold arrive push
    split
    · rfl
    · rfl
  constructor
  · intro type
    have ha' : SortedMap.find? (s.arrive c obj srcMat).m_mapVSObjs c = some a := by
      rw [hmaps]
      exact ha
    unfold fifo Fifo.arrive
    rw [waiting_of_find? ha', waiting_of_find? ha, hqueues, Function.update_self, hnone]
    congr 1
    exact Function.update_self _ _ _
  · intro c' hc type
    unfold fifo
    rw [waiting_of_ne h ha hc hmaps hqueues, hnone]
    congr 1
    exact Function.update_of_ne hc _ _

theorem Pop_of_find? (ha : SortedMap.find? s.m_mapVSObjs c = some a) :
    s.Pop c type = (((s.queues a).m_VideoStreamQue type).head?,
      { s with queues := Function.update s.queues a ((s.queues a).Pop type) }) := by
  unfold Pop
  rw [ha]

theorem Pop_of_none (hnone : SortedMap.find? s.m_mapVSObjs c = none) : s.Pop c type = (none, s) := by
  unfold Pop
  rw [hnone]

theorem waiting_take_of_find? (ha : SortedMap.find? s.m_mapVSObjs c = some a) :
    (s.take c type).waiting c type' = if type' = type then (s.waiting c type').tail else s.waiting c type' := by
  have ha' : SortedMap.find? (s.take c type).m_mapVSObjs c = some a := by
    rw [(take_spec s c type).1]
    exact ha
  rw [waiting_of_find? ha', waiting_of_find? ha]
  unfold take
  rw [Pop_of_find? ha]
  simp only [Function.update_self, CVSQueue.Pop]

theorem waiting_take_of_none (hnone : SortedMap.find? s.m_mapVSObjs c = none) :
    (s.take c type).waiting c' type' = s.waiting c' type' := by
  unfold take
  rw [Pop_of_none hnone]
  rfl

theorem taken_take : (s.take c type).taken c' type' =
    if c' = c ∧ type' = type then s.taken c type ++ (s.waiting c type).head?.toList else s.taken c' type' := by
  have hhead : (s.Pop c type).1 = (s.waiting c type).head? := by
    cases hqueue : SortedMap.find? s.m_mapVSObjs c with
    | none => rw [Pop_of_none hqueue, waiting_of_none hqueue, List.head?_nil]
    | some a => rw [Pop_of_find? hqueue, waiting_of_find? hqueue]
  unfold take
  simp only [hhead]
  by_cases hc : c' = c
  · subst hc
    rw [Function.update_self]
    by_cases htype : type' = type
    · rw [if_pos ⟨rfl, htype⟩, htype, Function.update_self]
    · rw [if_neg fun h => htype h.2, Function.update_of_ne htype]
  · rw [if_neg fun h => hc h.1, Function.update_of_ne hc]

/-- A task takes the picture that has waited longest, from its own queue only. -/
theorem fifo_take (c : String) (type : eQueueType) (h : s.toManagers.Sound) :
    (s.take c type).fifo c type = (s.fifo c type).take ∧
      ∀ c' type', ¬(c' = c ∧ type' = type) → (s.take c type).fifo c' type' = s.fifo c' type' := by
  have harrived : (s.take c type).arrived = s.arrived := by
    unfold take Pop
    split
    · rfl
    · rfl
  cases hqueue : SortedMap.find? s.m_mapVSObjs c with
  | none =>
    constructor
    · unfold fifo Fifo.take
      rw [waiting_take_of_none hqueue, taken_take, if_pos ⟨rfl, rfl⟩, harrived, waiting_of_none hqueue]
      rfl
    · intro c' type' hother
      unfold fifo
      rw [waiting_take_of_none hqueue, taken_take, if_neg hother, harrived]
  | some a =>
    constructor
    · unfold fifo Fifo.take
      rw [waiting_take_of_find? hqueue, if_pos rfl, taken_take, if_pos ⟨rfl, rfl⟩, harrived]
    · intro c' type' hother
      have hwaiting : (s.take c type).waiting c' type' = s.waiting c' type' := by
        by_cases hc : c' = c
        · subst hc
          rw [waiting_take_of_find? hqueue, if_neg fun htype => hother ⟨rfl, htype⟩]
        · have hqueues : (s.take c type).queues = Function.update s.queues a ((s.queues a).Pop type) := by
            unfold take
            rw [Pop_of_find? hqueue]
          exact waiting_of_ne h hqueue hc (take_spec s c type).1 hqueues
      unfold fifo
      rw [hwaiting, taken_take, if_neg hother, harrived]

theorem fifo_of_find? (hqueue : SortedMap.find? s'.m_mapVSObjs c = SortedMap.find? s.m_mapVSObjs c)
    (hpictures : ∀ a, SortedMap.find? s.m_mapVSObjs c = some a → s'.queues a = s.queues a)
    (harrived : s'.arrived c = s.arrived c) (htaken : s'.taken c = s.taken c) : s'.fifo c type = s.fifo c type := by
  have hwaiting : s'.waiting c type = s.waiting c type := by
    unfold waiting
    rw [hqueue]
    split
    · next a ha => rw [hpictures a ha]
    · rfl
  unfold fifo
  rw [hwaiting, harrived, htaken]

theorem fifo_AddQueueObj (h : s.toManagers.Sound) (hnew : ¬s.QueueIsExist c' = true) :
    (s.act (.AddQueueObj c')).fifo c type = if c = c' then {} else s.fifo c type := by
  rw [act_AddQueueObj_of_new hnew]
  have hfind : ∀ c, SortedMap.find? (s.toManagers.act (.AddQueueObj c')).m_mapVSObjs c =
      if c = c' then some s.next else SortedMap.find? s.m_mapVSObjs c := by
    intro c
    show SortedMap.find? (s.AddQueueObj c').m_mapVSObjs c = _
    rw [Managers.AddQueueObj_of_new hnew]
    exact Managers.find?_queue_new hnew
  by_cases hc : c = c'
  · subst hc
    rw [if_pos rfl]
    unfold fifo waiting
    simp only [hfind, if_true, Function.update_self]
  · rw [if_neg hc]
    apply fifo_of_find?
    · show SortedMap.find? (s.toManagers.act (.AddQueueObj c')).m_mapVSObjs c = _
      rw [hfind, if_neg hc]
    · intro a ha
      exact Function.update_of_ne (Nat.ne_of_lt (h.fresh c a ha)) _ _
    · exact Function.update_of_ne hc _ _
    · exact Function.update_of_ne hc _ _

theorem fifo_DelQueueObj :
    (s.act (.DelQueueObj c')).fifo c type = if c = c' then (s.fifo c type).clear else s.fifo c type := by
  have hfind : SortedMap.find? (s.act (.DelQueueObj c')).m_mapVSObjs c =
      if c = c' then none else SortedMap.find? s.m_mapVSObjs c := SortedMap.find?_erase _ _ _
  by_cases hc : c = c'
  · rw [if_pos hc] at hfind ⊢
    unfold fifo
    rw [waiting_of_none hfind]
    rfl
  · rw [if_neg hc] at hfind ⊢
    exact fifo_of_find? hfind (fun _ _ => rfl) rfl rfl

theorem fifo_onPullStream {f : CPullStream → CPullStream} :
    ({ s with toManagers := s.toManagers.onPullStream c' f } : CVSModule).fifo c type = s.fifo c type := by
  apply fifo_of_find?
  · show SortedMap.find? (s.toManagers.onPullStream c' f).m_mapVSObjs c = _
    rw [Managers.m_mapVSObjs_onPullStream]
  · exact fun _ _ => rfl
  · rfl
  · rfl

/-- An action leaves the pictures in order. -/
theorem ordered_act (h : s.toManagers.Sound) (hordered : (s.fifo c type).Ordered CVSQueue.gTaskQueueCapacity)
    (b : Action) :
    ((s.act b).fifo c type).Ordered CVSQueue.gTaskQueueCapacity := by
  cases b with
  | AddQueueObj c' =>
    by_cases hqueue : s.QueueIsExist c' = true
    · rw [act_AddQueueObj_of_exist hqueue]
      exact hordered
    · rw [fifo_AddQueueObj h hqueue]
      split
      · exact Fifo.ordered_empty
      · exact hordered
  | DelQueueObj c' =>
    rw [fifo_DelQueueObj]
    split
    · exact hordered.clear
    · exact hordered
  | AddPullStreamObj info => exact hordered
  | DelPullStreamObj c' => exact hordered
  | StartPullStreamObj c' =>
    rw [show (s.act (.StartPullStreamObj c')).fifo c type = s.fifo c type from fifo_onPullStream]
    exact hordered
  | UpdateCamBaseInfo info =>
    rw [show (s.act (.UpdateCamBaseInfo info)).fifo c type = s.fifo c type from fifo_onPullStream]
    exact hordered

/-- The pictures of all queues are in order. -/
def AllOrdered (s : CVSModule) : Prop := ∀ c type, (s.fifo c type).Ordered CVSQueue.gTaskQueueCapacity

theorem allOrdered_step (h : s.Inv cameras) (hordered : s.AllOrdered) (hstep : step s e = some s') : s'.AllOrdered := by
  intro c type
  cases e with
  | call call =>
    simp only [CVSModule.step] at hstep
    split at hstep
    · cases hstep
      exact hordered c type
    · cases hstep
  | work =>
    simp only [CVSModule.step] at hstep
    split at hstep
    · next a actions hactions =>
      cases hstep
      exact ordered_act h.sound (hordered c type) a
    · cases hstep
      exact hordered c type
    · cases hstep
  | picture c' srcMat =>
    simp only [CVSModule.step] at hstep
    split at hstep
    · next obj hobj =>
      split at hstep
      · cases hstep
        obtain ⟨harrive, hother⟩ := fifo_arrive srcMat h.sound hobj
        by_cases hc : c = c'
        · subst hc
          rw [harrive]
          exact (hordered c type).arrive srcMat
        · rw [hother c hc]
          exact hordered c type
      · cases hstep
    · cases hstep
  | take c' type' =>
    cases hstep
    obtain ⟨htake, hother⟩ := fifo_take c' type' h.sound
    by_cases hsame : c = c' ∧ type = type'
    · obtain ⟨rfl, rfl⟩ := hsame
      rw [htake]
      exact (hordered c type).take
    · rw [hother c type hsame]
      exact hordered c type

theorem allOrdered_run {es : List ModuleEvent} (h : s.Inv cameras) (hordered : s.AllOrdered)
    (hrun : run step s es = some s') : s'.AllOrdered := by
  induction es generalizing s cameras with
  | nil =>
    cases hrun
    exact hordered
  | cons e es ih =>
    obtain ⟨s₁, h₁, hrun⟩ := run_cons_eq_some.mp hrun
    exact ih (h.step h₁) (allOrdered_step h hordered h₁) hrun

/-- At any time, also in the middle of a call: the pictures that a task took from a camera and those that wait for it
are pictures of this camera in the order of their arrival, and at most two wait. A picture comes into each queue of
its camera that has room, a task gets the first of its own queue, and no other queue changes. -/
theorem pictures_in_order (es : List ModuleEvent) (s : CVSModule) (hrun : run step {} es = some s) (c : String)
    (type : eQueueType) :
    (s.fifo c type).Ordered CVSQueue.gTaskQueueCapacity ∧
      (∀ srcMat s', step s (.picture c srcMat) = some s' →
        (∀ type, s'.fifo c type = (s.fifo c type).arrive CVSQueue.gTaskQueueCapacity srcMat) ∧
          ∀ c' ≠ c, ∀ type, s'.fifo c' type = s.fifo c' type) ∧
      ∀ s', step s (.take c type) = some s' →
        s'.fifo c type = (s.fifo c type).take ∧
          ∀ c' type', ¬(c' = c ∧ type' = type) → s'.fifo c' type' = s.fifo c' type' := by
  have hinv := inv_new.run hrun
  have hnew : AllOrdered {} := fun _ _ => Fifo.ordered_empty
  refine ⟨allOrdered_run inv_new hnew hrun c type, fun srcMat s' hstep => ?_, fun s' hstep => ?_⟩
  · simp only [step] at hstep
    split at hstep
    · next obj hobj =>
      split at hstep
      · cases hstep
        exact fifo_arrive srcMat hinv.sound hobj
      · cases hstep
    · cases hstep
  · cases hstep
    exact fifo_take _ _ hinv.sound

def hallCamera : TCameraBaseInfo := ⟨"10.0.78.201", 554, "admin", "wavecamera1", "hall"⟩

def gateCamera : TCameraBaseInfo := ⟨"10.0.78.202", 554, "admin", "wavecamera1", "gate"⟩

/-- Two cameras are added, and pictures of one of them come before the other is there. -/
def twoCameras : List ModuleEvent :=
  [.call (.SyncAddCameraInfo [hallCamera, gateCamera]), .work, .work, .work, .work, .picture "hall" ⟨1, 1, [1, 1, 1]⟩,
    .work, .picture "hall" ⟨1, 1, [2, 2, 2]⟩, .take "hall" .FaceQueue, .work, .work, .work,
    .picture "gate" ⟨1, 1, [3, 3, 3]⟩]

theorem cameras_configured_two : ∃ s, run step {} twoCameras = some s ∧
    (SortedMap.find? s.m_mapPSObjs "hall").map CPullStream.m_CamBaseInfo =
      twoCameras.foldl configured (fun _ => none) "hall" :=
  ⟨_, rfl, (cameras_configured twoCameras _ rfl ⟨rfl, rfl⟩ "hall").1⟩

theorem pictures_in_order_two : ∃ s, run step {} twoCameras = some s ∧
    (s.fifo "hall" .FaceQueue).Ordered CVSQueue.gTaskQueueCapacity :=
  ⟨_, rfl, (pictures_in_order twoCameras _ rfl "hall" .FaceQueue).1⟩

end CVSModule

end Perception.Transfer
