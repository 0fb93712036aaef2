import Perception.Cfg.CfgMng

/-!
# The cameras that are pulled

`StartCameras` runs on the configured cameras at the start and after every command 0x14.
The streaming module has a queue and a pull-stream object for each camera code, the
transfer manager a thread that publishes the frames of the queue. All three only grow, and
a thread keeps the address that it was started with.
-/
namespace Perception.Transfer

set_option autoImplicit false

open Perception.Lib Perception.Cfg Perception.Db StateExcept

def strAttriUserName : String := "username"
def strAttriPwd : String := "pwd"
def strAttriCode : String := "code"
def strGetRtspStream : String := "GetRtspStream"

def RtspStreamTopic (strIp strCode : String) : String := strIp ++ strCode ++ strGetRtspStream

structure TCameraBaseInfo where
  strIP : String
  s32Port : Int
  strUserName : String
  strPassword : String
  strCameraCode : String

/-- A pull-stream object, with the camera that its client is told to open. -/
structure PullStream where
  camBaseInfo : TCameraBaseInfo
  bUpdate : Bool
  m_bRuning : Bool

/-- The queues, the pull-stream objects and the publishing threads, by camera code. A
thread is what its loop is called with. -/
structure VsTransferMng where
  m_mapVSObjs : List (String × Unit)
  m_mapPSObjs : List (String × PullStream)
  m_mapPullStream : List (String × (String × String))

namespace VsTransferMng

def new : VsTransferMng := ⟨[], [], []⟩

def QueueIsExist (s : VsTransferMng) (strCamCode : String) : Bool :=
  (SortedMap.find? s.m_mapVSObjs strCamCode).isSome

def AddQueueObj (s : VsTransferMng) (strCamCode : String) : VsTransferMng :=
  { s with m_mapVSObjs := SortedMap.emplace s.m_mapVSObjs strCamCode () }

/-- The work on the pull-stream object of a code, if there is one. -/
def onPullStream (s : VsTransferMng) (strCamCode : String) (f : PullStream → PullStream) : VsTransferMng :=
  match SortedMap.find? s.m_mapPSObjs strCamCode with
  | some obj => { s with m_mapPSObjs := SortedMap.insert s.m_mapPSObjs strCamCode (f obj) }
  | none => s

def UpdateCamBaseInfo (s : VsTransferMng) (camBaseInfo : TCameraBaseInfo) : VsTransferMng :=
  s.onPullStream camBaseInfo.strCameraCode fun obj => { obj with camBaseInfo := camBaseInfo, bUpdate := true }

/-- `CPullStreamMng::StartPullStreamObj`: an object that runs is not started again. -/
def StartPullStreamObj (s : VsTransferMng) (strCamCode : String) : VsTransferMng :=
  s.onPullStream strCamCode fun obj => { obj with m_bRuning := true }

/-- `CPullStreamMng::AddPullStreamObj`. -/
def emplacePullStream (s : VsTransferMng) (camBaseInfo : TCameraBaseInfo) : VsTransferMng :=
  { s with m_mapPSObjs := SortedMap.emplace s.m_mapPSObjs camBaseInfo.strCameraCode ⟨camBaseInfo, false, false⟩ }

/-- `CVideoMng::AddPullStreamObj`, with whether an object was added. -/
def AddPullStreamObj (s : VsTransferMng) (camBaseInfo : TCameraBaseInfo) : Bool × VsTransferMng :=
  if s.QueueIsExist camBaseInfo.strCameraCode then (false, s.UpdateCamBaseInfo camBaseInfo)
  else (true, (s.AddQueueObj camBaseInfo.strCameraCode).emplacePullStream camBaseInfo)

/-- One turn of `CVideoMng::StartPullStreamObj`. -/
def startCamera (s : VsTransferMng) (camBaseInfo : TCameraBaseInfo) : VsTransferMng :=
  let (bAdded, s) := s.AddPullStreamObj camBaseInfo
  if bAdded then s.StartPullStreamObj camBaseInfo.strCameraCode else s

/-- `CVideoMng::Start`, behind `InitModule` and `StartModule`, which do not fail. -/
def StartModule (s : VsTransferMng) (mapCamera : List (String × TCameraBaseInfo)) : VsTransferMng :=
  (mapCamera.map Prod.snd).foldl startCamera s

def camCode (elm : Json) : Except Exn String := do
  let jParams ← elm.child strAttriParams
  jParams.attr strAttriCode

def cameraInfo (elm : Json) : Except Exn TCameraBaseInfo := do
  let strIP ← elm.attr strAttriIp
  let strPort ← elm.attr strAttriPort
  let jParams ← elm.child strAttriParams
  let strUserName ← jParams.attr strAttriUserName
  let strPassword ← jParams.attr strAttriPwd
  let strCameraCode ← camCode elm
  pure ⟨strIP, atoi strPort, strUserName, strPassword, strCameraCode⟩

/-- The first loop: the enabled cameras, the first of each code. -/
def cameraInfos (mapCameraInfo : List (String × TCameraBaseInfo)) :
    List Json → Except Exn (List (String × TCameraBaseInfo))
  | [] => .ok mapCameraInfo
  | elm :: elms => do
    let strEnable ← elm.attr strAttriEnable
    if strEnable = "0" then cameraInfos mapCameraInfo elms
    else
      let tCameraInfo ← cameraInfo elm
      cameraInfos (SortedMap.emplace mapCameraInfo tCameraInfo.strCameraCode tCameraInfo) elms

/-- A new thread, unless a text is empty or the code has one. -/
def addThread (s : VsTransferMng) (strIp strCamCode : String) : VsTransferMng :=
  if strCamCode = "" ∨ strIp = "" then s
  else { s with m_mapPullStream := SortedMap.emplace s.m_mapPullStream strCamCode (strIp, strCamCode) }

/-- One turn of the second loop, which goes over all cameras. -/
def startThread (elm : Json) : EStateM Exn VsTransferMng Unit := do
  let strIp ← fromExcept (elm.attr strAttriIp)
  let strCamCode ← fromExcept (camCode elm)
  modify fun s => s.addThread strIp strCamCode

/-- On what is filed under the sub-node of the cameras with their type. -/
def StartCameras (vecSouthRtspTransCfg : List Json) : EStateM Exn VsTransferMng Unit :=
  if vecSouthRtspTransCfg.isEmpty then pure ()
  else do
    let mapCameraInfo ← fromExcept (cameraInfos [] vecSouthRtspTransCfg)
    if mapCameraInfo.isEmpty then pure ()
    else
      modify fun s => s.StartModule mapCameraInfo
      vecSouthRtspTransCfg.forM startThread

/-- One turn of a publishing thread: with a frame in the queue of its code, the topic that
the frame goes to. -/
def PullVideLoop {Frame : Type} (GetCmmImage : String → Option Frame) (strIp strCamCode : String) :
    Option (String × Frame) :=
  (GetCmmImage strCamCode).map fun srcMat => (RtspStreamTopic strIp strCamCode, srcMat)

def isEnabled (elm : Json) : Bool :=
  match elm.attr strAttriEnable with
  | .ok strEnable => strEnable != "0"
  | .error _ => true

def enabled (vec : List Json) : List Json := vec.filter isEnabled

def ipOf (elm : Json) : String := (elm.attr strAttriIp).toOption.getD ""
def codeOf (elm : Json) : String := (camCode elm).toOption.getD ""

/-- The configured cameras, when one of them is enabled. -/
def acting (vec : List Json) : List Json := if (enabled vec).isEmpty then [] else vec

/-- The thread for the code that a camera is good for. -/
def threadOf (strCamCode : String) (elm : Json) : Option (String × String) :=
  if codeOf elm = strCamCode ∧ codeOf elm ≠ "" ∧ ipOf elm ≠ "" then some (ipOf elm, codeOf elm) else none

/-- The first thread for the code, over a sequence of configurations. -/
def firstThread (strCamCode : String) (vecs : List (List Json)) : Option (String × String) :=
  (vecs.flatMap acting).findSome? (threadOf strCamCode)

/-- The cameras that have a pull-stream object and a publishing thread are the enabled
ones, and their frames go to the topic of the address that is configured. -/
structure Follows (s : VsTransferMng) (vec : List Json) : Prop where
  cameras : ∀ strCamCode, strCamCode ∈ SortedMap.keys s.m_mapPSObjs ∧ strCamCode ∈ SortedMap.keys s.m_mapPullStream ↔
    ∃ elm ∈ enabled vec, codeOf elm = strCamCode
  topics : ∀ elm ∈ enabled vec, ∃ thread, SortedMap.find? s.m_mapPullStream (codeOf elm) = some thread ∧
    ∀ srcMat : List UInt8, PullVideLoop (fun _ => some srcMat) thread.1 thread.2 =
      some (RtspStreamTopic (ipOf elm) (codeOf elm), srcMat)

/-- No camera was ever enabled and addressed that is not enabled at the end, and of those
that are, the first configured address is the last. -/
structure Settled (vecs : List (List Json)) (last : List Json) : Prop where
  kept : ∀ vec ∈ vecs, ∀ elm ∈ enabled vec, (firstThread (codeOf elm) (vecs ++ [last])).isSome →
    ∃ elm' ∈ enabled last, codeOf elm' = codeOf elm
  address : ∀ elm ∈ enabled last, firstThread (codeOf elm) (vecs ++ [last]) = some (ipOf elm, codeOf elm)

theorem codeOf_of_ok {elm : Json} {strCamCode : String} (h : camCode elm = .ok strCamCode) :
    codeOf elm = strCamCode := by
  rw [codeOf, h]
  rfl

theorem ipOf_of_ok {elm : Json} {strIp : String} (h : elm.attr strAttriIp = .ok strIp) : ipOf elm = strIp := by
  rw [ipOf, h]
  rfl

theorem cameraInfo_ok {elm : Json} {info : TCameraBaseInfo} (h : cameraInfo elm = .ok info) :
    info.strCameraCode = codeOf elm := by
  obtain ⟨strIP, -, h⟩ := except_bind_eq_ok.mp h
  obtain ⟨strPort, -, h⟩ := except_bind_eq_ok.mp h
  obtain ⟨jParams, -, h⟩ := except_bind_eq_ok.mp h
  obtain ⟨strUserName, -, h⟩ := except_bind_eq_ok.mp h
  obtain ⟨strPassword, -, h⟩ := except_bind_eq_ok.mp h
  obtain ⟨strCameraCode, hcode, h⟩ := except_bind_eq_ok.mp h
  obtain rfl := Except.ok.inj h
  exact (codeOf_of_ok hcode).symm

/-- The first loop: the codes of the enabled cameras. -/
theorem cameraInfos_ok {m m' : List (String × TCameraBaseInfo)} {vec : List Json}
    (h : cameraInfos m vec = .ok m') (hm : ∀ e ∈ m, e.2.strCameraCode = e.1) :
    (∀ e ∈ m', e.2.strCameraCode = e.1) ∧
      ∀ c, c ∈ SortedMap.keys m' ↔ c ∈ SortedMap.keys m ∨ ∃ elm ∈ enabled vec, codeOf elm = c := by
  induction vec generalizing m with
  | nil =>
    obtain rfl := Except.ok.inj h
    exact ⟨hm, fun c => by simp [enabled]⟩
  | cons elm vec ih =>
    obtain ⟨strEnable, henable, h⟩ := except_bind_eq_ok.mp h
    by_cases hoff : strEnable = "0"
    · rw [if_pos hoff] at h
      have hskip : enabled (elm :: vec) = enabled vec :=
        List.filter_cons_of_neg (by simp [isEnabled, henable, hoff])
      rw [hskip]
      exact ih h hm
    · rw [if_neg hoff] at h
      obtain ⟨info, hinfo, h⟩ := except_bind_eq_ok.mp h
      have htake : enabled (elm :: vec) = elm :: enabled vec :=
        List.filter_cons_of_pos (by simp [isEnabled, henable, hoff])
      have hmem : ∀ e ∈ SortedMap.emplace m info.strCameraCode info, e.2.strCameraCode = e.1 := by
        intro e he
        rcases SortedMap.mem_emplace he with rfl | he
        · rfl
        · exact hm e he
      obtain ⟨hm', hkeys⟩ := ih h hmem
      refine ⟨hm', fun c => ?_⟩
      rw [hkeys, SortedMap.mem_keys_emplace, htake, cameraInfo_ok hinfo, or_assoc, List.exists_mem_cons_iff]
      exact or_congr_right (or_congr_left eq_comm)

/-- Every queue has a pull-stream object, and the other way round. -/
def Aligned (s : VsTransferMng) : Prop :=
  ∀ c, c ∈ SortedMap.keys s.m_mapVSObjs ↔ c ∈ SortedMap.keys s.m_mapPSObjs

theorem onPullStream_keys (s : VsTransferMng) (c : String) (f : PullStream → PullStream) :
    SortedMap.keys (s.onPullStream c f).m_mapPSObjs = SortedMap.keys s.m_mapPSObjs ∧
      (s.onPullStream c f).m_mapVSObjs = s.m_mapVSObjs ∧
      (s.onPullStream c f).m_mapPullStream = s.m_mapPullStream := by
  unfold onPullStream
  split
  · next obj hf => exact ⟨SortedMap.keys_insert_of_mem _ (SortedMap.mem_keys.mpr ⟨obj, hf⟩), rfl, rfl⟩
  · exact ⟨rfl, rfl, rfl⟩

/-- Starting a camera: its code has a queue and a pull-stream object then. -/
theorem startCamera_spec {s : VsTransferMng} (hs : s.Aligned) (info : TCameraBaseInfo) :
    (s.startCamera info).Aligned ∧ (s.startCamera info).m_mapPullStream = s.m_mapPullStream ∧
      ∀ c, c ∈ SortedMap.keys (s.startCamera info).m_mapPSObjs ↔
        c ∈ SortedMap.keys s.m_mapPSObjs ∨ c = info.strCameraCode := by
  unfold startCamera AddPullStreamObj
  by_cases hq : s.QueueIsExist info.strCameraCode = true
  · rw [if_pos hq]
    obtain ⟨hkeys, hqueues, hthreads⟩ := onPullStream_keys s info.strCameraCode
      fun obj => { obj with camBaseInfo := info, bUpdate := true }
    have hold : info.strCameraCode ∈ SortedMap.keys s.m_mapPSObjs := by
      rw [← hs, SortedMap.mem_keys]
      exact Option.isSome_iff_exists.mp hq
    refine ⟨fun c => ?_, hthreads, fun c => ?_⟩
    · show c ∈ SortedMap.keys (s.onPullStream _ _).m_mapVSObjs ↔ c ∈ SortedMap.keys (s.onPullStream _ _).m_mapPSObjs
      rw [hkeys, hqueues]
      exact hs c
    · show c ∈ SortedMap.keys (s.onPullStream _ _).m_mapPSObjs ↔ _
      rw [hkeys]
      exact ⟨.inl, fun h => h.elim id fun heq => heq ▸ hold⟩
  · rw [if_neg hq]
    -- the object is new, and started
    obtain ⟨hkeys, hqueues, hthreads⟩ := onPullStream_keys
      ((s.AddQueueObj info.strCameraCode).emplacePullStream info) info.strCameraCode
      fun obj => { obj with m_bRuning := true }
    refine ⟨fun c => ?_, hthreads, fun c => ?_⟩
    · show c ∈ SortedMap.keys (onPullStream _ _ _).m_mapVSObjs ↔ c ∈ SortedMap.keys (onPullStream _ _ _).m_mapPSObjs
      rw [hkeys, hqueues]
      show c ∈ SortedMap.keys (SortedMap.emplace _ _ _) ↔ c ∈ SortedMap.keys (SortedMap.emplace _ _ _)
      rw [SortedMap.mem_keys_emplace, SortedMap.mem_keys_emplace, hs]
      exact Iff.rfl
    · show c ∈ SortedMap.keys (onPullStream _ _ _).m_mapPSObjs ↔ _
      rw [hkeys]
      exact SortedMap.mem_keys_emplace

theorem foldl_startCamera_spec {s : VsTransferMng} (hs : s.Aligned) (infos : List TCameraBaseInfo) :
    (infos.foldl startCamera s).Aligned ∧ (infos.foldl startCamera s).m_mapPullStream = s.m_mapPullStream ∧
      ∀ c, c ∈ SortedMap.keys (infos.foldl startCamera s).m_mapPSObjs ↔
        c ∈ SortedMap.keys s.m_mapPSObjs ∨ c ∈ infos.map TCameraBaseInfo.strCameraCode := by
  induction infos generalizing s with
  | nil => exact ⟨hs, rfl, fun c => by simp⟩
  | cons info infos ih =>
    obtain ⟨haligned, hthreads, hkeys⟩ := startCamera_spec hs info
    obtain ⟨haligned', hthreads', hkeys'⟩ := ih haligned
    refine ⟨haligned', hthreads'.trans hthreads, fun c => ?_⟩
    rw [List.foldl_cons, hkeys', hkeys, List.map_cons, List.mem_cons, or_assoc]

theorem addThread_spec (s : VsTransferMng) (elm : Json) :
    (s.addThread (ipOf elm) (codeOf elm)).m_mapVSObjs = s.m_mapVSObjs ∧
      (s.addThread (ipOf elm) (codeOf elm)).m_mapPSObjs = s.m_mapPSObjs ∧
      ∀ c, SortedMap.find? (s.addThread (ipOf elm) (codeOf elm)).m_mapPullStream c =
        (SortedMap.find? s.m_mapPullStream c).or (threadOf c elm) := by
  unfold addThread threadOf
  by_cases hempty : codeOf elm = "" ∨ ipOf elm = ""
  · rw [if_pos hempty]
    refine ⟨rfl, rfl, fun c => ?_⟩
    rw [if_neg fun h => hempty.elim h.2.1 h.2.2, Option.or_none]
  · obtain ⟨hc, hi⟩ := not_or.mp hempty
    rw [if_neg hempty]
    refine ⟨rfl, rfl, fun c => ?_⟩
    rw [SortedMap.find?_emplace]
    by_cases hk : c = codeOf elm
    · rw [if_pos hk, if_pos ⟨hk.symm, hc, hi⟩]
    · rw [if_neg hk, if_neg fun h => hk h.1.symm]

/-- The second loop: a code without a thread gets that of the first camera. -/
theorem forM_startThread_ok {vec : List Json} {s s' : VsTransferMng} (h : vec.forM startThread s = .ok ⟨⟩ s') :
    s'.m_mapVSObjs = s.m_mapVSObjs ∧ s'.m_mapPSObjs = s.m_mapPSObjs ∧
      ∀ c, SortedMap.find? s'.m_mapPullStream c =
        (SortedMap.find? s.m_mapPullStream c).or (vec.findSome? (threadOf c)) := by
  induction vec generalizing s with
  | nil =>
    cases h
    exact ⟨rfl, rfl, fun c => (Option.or_none).symm⟩
  | cons elm vec ih =>
    obtain ⟨s₁, h₁, h⟩ := forM_cons_eq_ok.mp h
    obtain ⟨hqueues, hobjs, hthreads⟩ := ih h
    obtain ⟨strIp, _, hfrom, h₁⟩ := bind_eq_ok.mp h₁
    obtain ⟨hip, rfl⟩ := fromExcept_eq_ok.mp hfrom
    obtain ⟨strCamCode, _, hfrom', h₁⟩ := bind_eq_ok.mp h₁
    obtain ⟨hcode, rfl⟩ := fromExcept_eq_ok.mp hfrom'
    obtain rfl := codeOf_of_ok hcode
    obtain rfl := ipOf_of_ok hip
    cases h₁
    obtain ⟨hqueues₁, hobjs₁, hthreads₁⟩ := addThread_spec s elm
    refine ⟨hqueues.trans hqueues₁, hobjs.trans hobjs₁, fun c => ?_⟩
    have hfirst := hthreads c
    change SortedMap.find? s'.m_mapPullStream c =
      (SortedMap.find? (s.addThread (ipOf elm) (codeOf elm)).m_mapPullStream c).or _ at hfirst
    rw [hfirst, hthreads₁, Option.or_assoc, List.findSome?_cons]
    cases threadOf c elm <;> rfl

/-- What a configuration makes of the cameras and the threads. -/
structure Started (vec : List Json) (s s' : VsTransferMng) : Prop where
  aligned : s'.Aligned
  objs : ∀ c, c ∈ SortedMap.keys s'.m_mapPSObjs ↔
    c ∈ SortedMap.keys s.m_mapPSObjs ∨ ∃ elm ∈ enabled vec, codeOf elm = c
  threads : ∀ c, SortedMap.find? s'.m_mapPullStream c =
    (SortedMap.find? s.m_mapPullStream c).or ((acting vec).findSome? (threadOf c))

/-- With no camera enabled nothing is started. -/
theorem Started.idle {vec : List Json} {s : VsTransferMng} (hs : s.Aligned) (hnone : enabled vec = []) :
    Started vec s s where
  aligned := hs
  objs c := by simp [hnone]
  threads c := by simp [acting, hnone]

theorem cameraInfos_isEmpty {vec : List Json} {m : List (String × TCameraBaseInfo)}
    (hkeys : ∀ c, c ∈ SortedMap.keys m ↔ c ∈ SortedMap.keys ([] : List (String × TCameraBaseInfo)) ∨
      ∃ elm ∈ enabled vec, codeOf elm = c) : m.isEmpty = true ↔ enabled vec = [] := by
  constructor
  · intro hm
    apply List.eq_nil_iff_forall_not_mem.mpr
    intro elm helm
    obtain rfl := List.isEmpty_iff.mp hm
    cases (hkeys (codeOf elm)).mpr (.inr ⟨elm, helm, rfl⟩)
  · intro hnone
    have hno : SortedMap.keys m = [] := by
      apply List.eq_nil_iff_forall_not_mem.mpr
      intro c hc
      obtain hc | ⟨elm, helm, -⟩ := (hkeys c).mp hc
      · cases hc
      · rw [hnone] at helm
        cases helm
    exact List.isEmpty_iff.mpr (List.map_eq_nil_iff.mp hno)

/-- **One configuration.** Cameras are added when one is enabled, and threads for all. -/
theorem StartCameras_ok {vec : List Json} {s s' : VsTransferMng} (hs : s.Aligned)
    (h : StartCameras vec s = .ok ⟨⟩ s') : Started vec s s' := by
  unfold StartCameras at h
  by_cases hvec : vec.isEmpty = true
  · rw [if_pos hvec] at h
    obtain rfl := List.isEmpty_iff.mp hvec
    cases h
    exact .idle hs rfl
  · rw [if_neg hvec] at h
    obtain ⟨m, _, hfrom, h⟩ := bind_eq_ok.mp h
    obtain ⟨hinfos, rfl⟩ := fromExcept_eq_ok.mp hfrom
    obtain ⟨hcodes, hkeys⟩ := cameraInfos_ok hinfos (fun e he => by cases he)
    by_cases hm : m.isEmpty = true
    · rw [if_pos hm] at h
      cases h
      exact .idle hs ((cameraInfos_isEmpty hkeys).mp hm)
    · rw [if_neg hm] at h
      obtain ⟨_, s₁, h₁, h⟩ := bind_eq_ok.mp h
      cases h₁
      obtain ⟨haligned, hthreads, hobjs⟩ := foldl_startCamera_spec hs (m.map Prod.snd)
      obtain ⟨hqueues', hobjs', hthreads'⟩ := forM_startThread_ok h
      have hcode : (m.map Prod.snd).map TCameraBaseInfo.strCameraCode = SortedMap.keys m := by
        rw [List.map_map]
        exact List.map_congr_left hcodes
      have hact : acting vec = vec :=
        if_neg fun hnone => hm ((cameraInfos_isEmpty hkeys).mpr (List.isEmpty_iff.mp hnone))
      refine ⟨fun c => ?_, fun c => ?_, fun c => ?_⟩
      · rw [hqueues', hobjs']
        exact haligned c
      · rw [hobjs']
        show c ∈ SortedMap.keys ((m.map Prod.snd).foldl startCamera s).m_mapPSObjs ↔ _
        rw [hobjs, hcode, hkeys]
        simp [SortedMap.keys]
      · rw [hthreads' c, hact]
        show (SortedMap.find? ((m.map Prod.snd).foldl startCamera s).m_mapPullStream c).or _ = _
        rw [hthreads]

theorem aligned_new : Aligned new := fun _ => Iff.rfl

theorem forM_StartCameras_ok {vecs : List (List Json)} {s s' : VsTransferMng} (hs : s.Aligned)
    (h : vecs.forM StartCameras s = .ok ⟨⟩ s') :
    (∀ c, c ∈ SortedMap.keys s'.m_mapPSObjs ↔
      c ∈ SortedMap.keys s.m_mapPSObjs ∨ ∃ vec ∈ vecs, ∃ elm ∈ enabled vec, codeOf elm = c) ∧
      ∀ c, SortedMap.find? s'.m_mapPullStream c =
        (SortedMap.find? s.m_mapPullStream c).or (firstThread c vecs) := by
  induction vecs generalizing s with
  | nil =>
    cases h
    exact ⟨fun c => by simp, fun c => by simp [firstThread]⟩
  | cons vec vecs ih =>
    obtain ⟨s₁, h₁, h⟩ := forM_cons_eq_ok.mp h
    have hstarted := StartCameras_ok hs h₁
    obtain ⟨hobjs, hthreads⟩ := ih hstarted.aligned h
    refine ⟨fun c => ?_, fun c => ?_⟩
    · rw [hobjs, hstarted.objs, or_assoc, List.exists_mem_cons_iff]
    · rw [hthreads, hstarted.threads, Option.or_assoc, firstThread, firstThread, List.flatMap_cons, List.findSome?_append]

theorem threadOf_eq_some {c : String} {elm : Json} {thread : String × String} (h : threadOf c elm = some thread) :
    thread = (ipOf elm, c) := by
  unfold threadOf at h
  split at h
  · next hc =>
    rw [← Option.some.inj h, hc.1]
  · cases h

/-- A thread publishes under the code that it is registered for. -/
theorem firstThread_code {c : String} {vecs : List (List Json)} {thread : String × String}
    (h : firstThread c vecs = some thread) : thread.2 = c := by
  obtain ⟨elm, -, helm⟩ := List.exists_of_findSome?_eq_some h
  rw [threadOf_eq_some helm]

/-- For one code the topic tells the address. -/
theorem RtspStreamTopic_inj {strIp strIp' strCode : String}
    (h : RtspStreamTopic strIp strCode = RtspStreamTopic strIp' strCode) : strIp = strIp' :=
  (String.append_left_inj strCode).mp ((String.append_left_inj strGetRtspStream).mp h)

/-- **The cameras follow the configuration** after a sequence of configurations exactly
when the sequence is settled. -/
theorem cameras_follow_iff {vecs : List (List Json)} {last : List Json} {s : VsTransferMng}
    (h : (vecs ++ [last]).forM StartCameras new = .ok ⟨⟩ s) : Follows s last ↔ Settled vecs last := by
  obtain ⟨hobjs, hthreads⟩ := forM_StartCameras_ok aligned_new h
  have hobj : ∀ c, c ∈ SortedMap.keys s.m_mapPSObjs ↔
      ∃ vec ∈ vecs ++ [last], ∃ elm ∈ enabled vec, codeOf elm = c := by
    intro c
    rw [hobjs]
    exact or_iff_right (by simp [new, SortedMap.keys])
  have hthread : ∀ c, SortedMap.find? s.m_mapPullStream c = firstThread c (vecs ++ [last]) := by
    intro c
    rw [hthreads]
    rfl
  have hkey : ∀ c, c ∈ SortedMap.keys s.m_mapPullStream ↔ (firstThread c (vecs ++ [last])).isSome = true := by
    intro c
    rw [SortedMap.mem_keys, hthread, Option.isSome_iff_exists]
  have hlast : last ∈ vecs ++ [last] := List.mem_append_right vecs (List.mem_singleton_self last)
  constructor
  · intro hfollows
    constructor
    · intro vec hvec elm helm hsome
      apply (hfollows.cameras (codeOf elm)).mp
      exact ⟨(hobj _).mpr ⟨vec, List.mem_append_left _ hvec, elm, helm, rfl⟩, (hkey _).mpr hsome⟩
    · intro elm helm
      obtain ⟨thread, hfind, hpublish⟩ := hfollows.topics elm helm
      rw [hthread] at hfind
      have hcode := firstThread_code hfind
      have htopic := congrArg Prod.fst (Option.some.inj (hpublish []))
      change RtspStreamTopic thread.1 thread.2 = RtspStreamTopic (ipOf elm) (codeOf elm) at htopic
      rw [hcode] at htopic
      rw [hfind, ← hcode, ← RtspStreamTopic_inj htopic]
  · intro hsettled
    constructor
    · intro c
      constructor
      · intro hboth
        obtain ⟨vec, hvec, elm, helm, rfl⟩ := (hobj c).mp hboth.1
        obtain hvec | hvec := List.mem_append.mp hvec
        · exact hsettled.kept vec hvec elm helm ((hkey _).mp hboth.2)
        · rw [List.mem_singleton.mp hvec] at helm
          exact ⟨elm, helm, rfl⟩
      · intro hexists
        obtain ⟨elm, helm, rfl⟩ := hexists
        refine ⟨(hobj _).mpr ⟨last, hlast, elm, helm, rfl⟩, (hkey _).mpr ?_⟩
        rw [hsettled.address elm helm]
        rfl
    · intro elm helm
      refine ⟨(ipOf elm, codeOf elm), ?_, fun srcMat => rfl⟩
      rw [hthread, hsettled.address elm helm]

/-- A camera as in the protocol document. -/
def rtspCamera (strEnable strIp strCode : String) : Json :=
  .object [("desc", .string "video stream"), ("enable", .string strEnable), ("idx", .string "1"),
    ("ip", .string strIp),
    ("params", .object [("code", .string strCode), ("pwd", .string "wavecamera1"), ("username", .string "admin")]),
    ("port", .string "554"), ("type", .string "rtspcli")]

instance (vecs : List (List Json)) (last : List Json) : Decidable (Settled vecs last) :=
  decidable_of_iff
    ((∀ vec ∈ vecs, ∀ elm ∈ enabled vec, (firstThread (codeOf elm) (vecs ++ [last])).isSome = true →
        ∃ elm' ∈ enabled last, codeOf elm' = codeOf elm) ∧
      ∀ elm ∈ enabled last, firstThread (codeOf elm) (vecs ++ [last]) = some (ipOf elm, codeOf elm))
    ⟨fun h => ⟨h.1, h.2⟩, fun h => ⟨h.kept, h.address⟩⟩

/-- A camera is added. -/
theorem cameras_follow_added : ∃ s,
    ([[rtspCamera "1" "10.0.78.201" "camera1"]] ++
      [[rtspCamera "1" "10.0.78.201" "camera1", rtspCamera "1" "10.0.78.202" "camera2"]]).forM StartCameras new =
        .ok ⟨⟩ s ∧
      Follows s [rtspCamera "1" "10.0.78.201" "camera1", rtspCamera "1" "10.0.78.202" "camera2"] := by
  have hrun : ∃ s, ([[rtspCamera "1" "10.0.78.201" "camera1"]] ++
      [[rtspCamera "1" "10.0.78.201" "camera1", rtspCamera "1" "10.0.78.202" "camera2"]]).forM StartCameras new =
        .ok ⟨⟩ s := ⟨_, rfl⟩
  obtain ⟨s, hs⟩ := hrun
  exact ⟨s, hs, (cameras_follow_iff hs).mpr (by decide +kernel)⟩

/-- A camera gets another address: its frames still go to the topic of the old one. -/
theorem not_cameras_follow_readdressed : ∃ s,
    ([[rtspCamera "1" "10.0.78.201" "camera1"]] ++ [[rtspCamera "1" "10.0.78.203" "camera1"]]).forM StartCameras new =
        .ok ⟨⟩ s ∧
      SortedMap.find? s.m_mapPullStream "camera1" = some ("10.0.78.201", "camera1") ∧
      ¬ Follows s [rtspCamera "1" "10.0.78.203" "camera1"] := by
  have hrun : ∃ s, ([[rtspCamera "1" "10.0.78.201" "camera1"]] ++
      [[rtspCamera "1" "10.0.78.203" "camera1"]]).forM StartCameras new = .ok ⟨⟩ s ∧
      SortedMap.find? s.m_mapPullStream "camera1" = some ("10.0.78.201", "camera1") := ⟨_, rfl, rfl⟩
  obtain ⟨s, hs, hthread⟩ := hrun
  refine ⟨s, hs, hthread, fun hfollows => ?_⟩
  have hen : rtspCamera "1" "10.0.78.203" "camera1" ∈ enabled [rtspCamera "1" "10.0.78.203" "camera1"] :=
    List.mem_filter.mpr ⟨List.mem_singleton_self _, rfl⟩
  obtain ⟨thread, hfind, hpublish⟩ := hfollows.topics _ hen
  rw [show codeOf (rtspCamera "1" "10.0.78.203" "camera1") = "camera1" from rfl, hthread] at hfind
  obtain rfl := Option.some.inj hfind
  have htopic := congrArg Prod.fst (Option.some.inj (hpublish []))
  revert htopic
  decide +kernel

end VsTransferMng

end Perception.Transfer
