import Perception.Alg.Subscription
import Perception.Cfg.LoadCfg
import Perception.Lib.Traced

/-!
# The application module

`StartAppModule` reads the enabled tasks from the lookup map and gives them to the
application, which keeps one object for each detection task and attaches it to the results
of the task. An object is initialised again with every start in which its task comes, and
there is nothing that takes it away. The faces are not modelled here.
-/
namespace Perception.App

set_option autoImplicit false

open Perception.Lib Perception.Cfg Perception.Db Perception.Alg

def strDetectAlgTypeIdxValue : String := "0"
def strActionAlgTypeIdxValue : String := "1"
def strFaceAlgTypeIdxValue : String := "2"
def strTransferSouthTcpSvrNode : String := "SouthTcpSvr"

/-- `AlgCfgMap[strAlgIdx]`; an unknown key is put there with the empty text. -/
def AlgCfgMap (strAlgIdx : String) : String :=
  if strAlgIdx = strDetectAlgTypeIdxValue then "detect1"
  else if strAlgIdx = strActionAlgTypeIdxValue then "action1"
  else if strAlgIdx = strFaceAlgTypeIdxValue then "face1"
  else ""

/-- A task with the algorithm and the data sources that it names. -/
structure TaskCfg where
  taskCfg : Json
  algCfg : Json
  vecDataSrc : List Json

/-- The data sources of a task, from the lookup map. -/
def dataSrcCfgs (m : CfgObjMap) (elm : Json) : Except Exn (List Json) := do
  let strTransferId ← elm.attr strAttriTransferId
  pure (m.getList strTransferId)

/-- Equal times disable a task; a task without its algorithm ends the loop. -/
def GetAppModuleTaskLst (m : CfgObjMap) : List Json → Except Exn (List TaskCfg)
  | [] => .ok []
  | jTask :: jTaskLst => do
    let strStartTime ← jTask.attr strAttriStartTime
    let strEndTime ← jTask.attr strAttriEndTime
    if strStartTime = strEndTime then GetAppModuleTaskLst m jTaskLst
    else do
      let strAlgIdx ← jTask.attr strAttriAlgIdx
      match m.getFirst (AlgCfgMap strAlgIdx) with
      | none => pure []
      | some algCfg => do
        let jDataSrc ← (jTask.read [.key strAttriDataSrc]).1
        let vecDataSrcCfg ← collect (dataSrcCfgs m) jDataSrc.elems
        let lst ← GetAppModuleTaskLst m jTaskLst
        pure (⟨(jTask.read [.key strAttriDataSrc]).2, algCfg, vecDataSrcCfg⟩ :: lst)

structure box where
  x : Float32
  y : Float32
  w : Float32
  h : Float32

structure detection where
  bbox : box
  sort_class : Int32
  /-- `0.0 >= prob[sort_class]` does not hold. -/
  scored : Bool

def IsOverlap (father child : box) : Bool :=
  let x1 := father.x - father.w / 2
  let x2 := father.x + father.w / 2
  let y1 := father.y - father.h / 2
  let y2 := father.y + father.h / 2
  let y3 := child.y + child.h / 2
  y3 > y1 && y3 < y2 && child.x > x1 && child.x < x2

/-- The boxes of the class that a text of the task list names. -/
def DetectInference (dets : List detection) (strTask : String) : List box :=
  (dets.filter fun det => strTask = toString det.sort_class.toInt && det.scored).map detection.bbox

structure CommSafeDetect where
  m_jTaskCfg : Json
  m_lstStrTask : List String
  m_mapDataSrc : List (String × Json)
  /-- `m_ptrMsgBus` is set. -/
  m_ptrMsgBus : Bool

/-- A row for `DetectReportTable`, without its date and image. -/
structure DetectReport where
  task_flag : String
  alg_idx : String
  alert_type : String
  data_src : String

/-- What an object does with a result. -/
inductive Action
  | insert (row : DetectReport)
  | nohelmet

namespace CommSafeDetect

def new : CommSafeDetect := ⟨.null, [], [], false⟩

/-- The data sources, the first for each address. -/
def dataSrcMap : List (String × Json) → List Json → Except Exn (List (String × Json))
  | m_mapDataSrc, [] => .ok m_mapDataSrc
  | m_mapDataSrc, DataSrc :: vecDataSrc => do
    let strIpKey ← constAttr DataSrc strAttriIp
    dataSrcMap (SortedMap.emplace m_mapDataSrc strIpKey DataSrc) vecDataSrc

/-- The topic that an object is attached to, with its first task only. -/
def caclResultTopic (obj : CommSafeDetect) (taskCfg : Json) : Except Exn (List String) :=
  if obj.m_ptrMsgBus then .ok []
  else do
    let strType ← constAttr taskCfg strAttriType
    let strIdx ← constAttr taskCfg strAttriIdx
    pure [AlgResultTopic strType strIdx]

/-- The object again, and the topics that it gets attached to. -/
def Init (obj : CommSafeDetect) (t : TaskCfg) : Except Exn (CommSafeDetect × List String) := do
  let strTaskLst ← constAttr t.taskCfg strAttriTaskLst
  let topics ← obj.caclResultTopic t.taskCfg
  let m_mapDataSrc ← dataSrcMap [] t.vecDataSrc
  let _ ← constAttr t.algCfg strAttriType
  let _ ← constAttr t.algCfg strAttriIdx
  pure (⟨t.taskCfg, (Strtok strTaskLst.toList '|').map String.ofList, m_mapDataSrc, true⟩, topics)

/-- The row for an alert of one class at one address. -/
def alertRow (obj : CommSafeDetect) (strIp task : String) : Except Exn DetectReport := do
  let strType ← obj.m_jTaskCfg.attr strAttriType
  let strIdx ← obj.m_jTaskCfg.attr strAttriIdx
  let ite := (SortedMap.find? obj.m_mapDataSrc strIp).getD .null
  let strSrcType ← ite.attr strAttriType
  let strSrcIdx ← ite.attr strAttriIdx
  let strDesc ← ite.attr strAttriDesc
  pure ⟨strType ++ strIdx, strDetectAlgTypeIdxValue, task, strSrcType ++ strSrcIdx ++ ":" ++ strDesc⟩

/-- One turn of the loop over the task list. -/
def saveAlert (obj : CommSafeDetect) (strIp : String) (dets : List detection) (task : String) : Traced Action Unit :=
  if (DetectInference dets task).isEmpty then pure ()
  else
    match obj.alertRow strIp task with
    | .ok row => .emit (.insert row)
    | .error _ => .halt

/-- Whether the voice is played: more persons than helmets, or a person without one. -/
def bAlarm (obj : CommSafeDetect) (dets : List detection) : Bool :=
  let vecPersonBox := DetectInference dets "0"
  let vecHelmetBox := DetectInference dets "23"
  obj.m_lstStrTask.contains "0" && obj.m_lstStrTask.contains "23" && !vecPersonBox.isEmpty &&
    (vecPersonBox.length > vecHelmetBox.length ||
      vecPersonBox.any fun personBox => !vecHelmetBox.any (IsOverlap personBox))

def ProResultMsg (obj : CommSafeDetect) (strIp : String) (dets : List detection) : Traced Action Unit :=
  if (SortedMap.find? obj.m_mapDataSrc strIp).isNone then pure ()
  else do
    obj.m_lstStrTask.forM (obj.saveAlert strIp dets)
    if obj.bAlarm dets then .emit .nohelmet else pure ()

end CommSafeDetect

structure CommSafeMng where
  /-- `m_ptrMsgBus` is set. -/
  m_ptrMsgBus : Bool
  m_mapDetectShrPtr : List (String × CommSafeDetect)
  /-- The results of the algorithms; an object is known by its key. -/
  bus : MessageBus String String

namespace CommSafeMng

def new : CommSafeMng := ⟨false, [], ⟨[]⟩⟩

/-- `AlgInit` for a detection task. -/
def AlgInit (s : CommSafeMng) (strKey : String) (t : TaskCfg) : Except Exn CommSafeMng := do
  let (obj, topics) ← ((SortedMap.find? s.m_mapDetectShrPtr strKey).getD .new).Init t
  pure { s with
    m_mapDetectShrPtr := SortedMap.insert s.m_mapDetectShrPtr strKey obj
    bus := topics.foldl (fun bus topic => bus.Attach strKey topic) s.bus }

def algKey (t : TaskCfg) : Except Exn String := do
  let strType ← t.algCfg.attr strAttriType
  let strIdx ← t.algCfg.attr strAttriIdx
  pure (strType ++ strIdx)

def taskKey (t : TaskCfg) : Except Exn String := do
  let strType ← t.taskCfg.attr strAttriType
  let strIdx ← t.taskCfg.attr strAttriIdx
  pure (strType ++ strIdx)

/-- One turn of the loop of `InitParams`. -/
def initTask (s : CommSafeMng) (t : TaskCfg) : Except Exn CommSafeMng := do
  let strAlgIdx ← algKey t
  let strTaskIdx ← taskKey t
  if AlgCfgMap strDetectAlgTypeIdxValue = strAlgIdx then s.AlgInit strTaskIdx t else pure s

/-- The port is read with the first call, which attaches the application to it. -/
def bindPort (s : CommSafeMng) (southCfg : Json) : Except Exn String :=
  if s.m_ptrMsgBus then pure "" else constAttr southCfg strAttriPort

def InitParams (southCfg : Json) (lstTaskCfg : List TaskCfg) (s : CommSafeMng) : Except Exn CommSafeMng := do
  let _ ← s.bindPort southCfg
  lstTaskCfg.foldlM initTask { s with m_ptrMsgBus := true }

/-- One member of the application node. There is one library to load. -/
def startApp (m : CfgObjMap) (southCfg : Json) (s : CommSafeMng) (it : Option String × Json) :
    Except Exn CommSafeMng := do
  let strAppName ← Json.keyOf it.1
  let lstTaskCfg ← GetAppModuleTaskLst m it.2.elems
  if strAppName = strAppCommSafeNode then s.InitParams southCfg lstTaskCfg else .error .undefined

/-- Whether the applications are started, and what comes of them. -/
def StartAppModule (m : CfgObjMap) (s : CommSafeMng) : Except Exn (Bool × CommSafeMng) :=
  match m.getFirst strAppNode, m.getFirst (strTransferNode ++ strTransferSouthTcpSvrNode) with
  | some AppCfg, some SouthTcpSvrCfg => do
    let s ← AppCfg.items.foldlM (startApp m SouthTcpSvrCfg) s
    pure (true, s)
  | _, _ => pure (false, s)

/-- A result on a topic, for the objects that are attached to it. -/
def publish (s : CommSafeMng) (strIp : String) (dets : List detection) : List String → Traced (String × Action) Unit
  | [] => pure ()
  | key :: keys =>
    match SortedMap.find? s.m_mapDetectShrPtr key with
    | none => .halt
    | some obj => do
      let x := obj.ProResultMsg strIp dets
      ⟨x.log.map fun a => (key, a), x.val⟩
      s.publish strIp dets keys

end CommSafeMng

end Perception.App
