import Perception.Db.SqliteDbSvr

/-!
# The configuration manager

`CCfgMng` holds the configuration as JSON, the lookup map made from it, and the tables.
Commands arrive as the outcome of `Json::parse` on their body. What the applications and
the camera module do with a new configuration is not modelled; what they throw, if
anything, comes with the command.
-/
namespace Perception.Cfg

set_option autoImplicit false

open Perception.Lib Perception.Db StateExcept

def strAttriTaskFlag : String := "task_flag"
def strAttriTransferId : String := "transfer_id"
def strAttriResult : String := "result"
def strAttriValueOk : String := "ok"
def strAlgDetectNode : String := "Detect"
def strAlgActionNode : String := "Action"
def strTaskDetectNode : String := "Detect"
def strTaskActionNode : String := "Action"
def strAttriSqliteSvrValue : String := "sqlitesvr"
def strDelDB : String := "DelFromDB"

def SqliteDelDBTopic (strDBIdx : String) : String := strDBIdx ++ strDelDB

structure CfgMng where
  m_jRuntimeSysCfg : Json
  m_mapRuntimeSysCfg : CfgObjMap
  db : Sqlite

namespace CfgMng

abbrev Cmd (α : Type) : Type := EStateM Exn CfgMng α

/-- Code on `m_jRuntimeSysCfg`, which keeps what it changed when it throws. -/
def onCfg {α : Type} (f : Json → Except Exn α × Json) : Cmd α := fun s =>
  match f s.m_jRuntimeSysCfg with
  | (.ok a, j) => .ok a { s with m_jRuntimeSysCfg := j }
  | (.error e, j) => .error e { s with m_jRuntimeSysCfg := j }

def onMap {α : Type} (x : EStateM Exn CfgObjMap α) : Cmd α :=
  zoom CfgMng.m_mapRuntimeSysCfg (fun s m => { s with m_mapRuntimeSysCfg := m }) x

def onDb {α : Type} (x : EStateM Exn Sqlite α) : Cmd α := zoom CfgMng.db (fun s d => { s with db := d }) x

end CfgMng

def isspace (c : Char) : Bool := c.toNat == 32 || (9 ≤ c.toNat && c.toNat ≤ 13)

/-- A sign, and what is behind it. -/
def sign : List Char → Bool × List Char
  | '-' :: cs => (true, cs)
  | '+' :: cs => (false, cs)
  | cs => (false, cs)

/-- `atoi`: blanks, a sign, digits; `strtol` cut to an `int`. -/
def atoi (s : String) : Int :=
  let (neg, cs) := sign (s.toList.dropWhile isspace)
  let n : Nat := (cs.takeWhile Char.isDigit).foldl (fun n c => 10 * n + (c.toNat - 48)) 0
  let long : Int := if neg then max (-(n : Int)) (-9223372036854775808) else min n 9223372036854775807
  long.bmod 4294967296

/-- `++` on an `int`; past the largest value it is not defined. -/
def incr (n : Int) : Except Exn Int := if n < 2147483647 then .ok (n + 1) else .error .undefined

/-- The first loop: the largest index in use. The entries are visited by reference. -/
def maxIdx (s32MaxIdx : Int) : List Json → Except Exn Int × List Json
  | [] => (.ok s32MaxIdx, [])
  | obj :: objs =>
    match obj.readStr [.key strAttriIdx] with
    | (.error e, obj) => (.error e, obj :: objs)
    | (.ok strIdx, obj) =>
      let s32MaxIdx := if strIdx ≠ "-1" then max s32MaxIdx (atoi strIdx) else s32MaxIdx
      let (r, objs) := maxIdx s32MaxIdx objs
      (r, obj :: objs)

/-- The second loop: entries with idx -1 get the next index. -/
def fillIdx (s32MaxIdx : Int) : List Json → Except Exn (List Json)
  | [] => .ok []
  | obj :: objs => do
    let strIdx ← obj.attr strAttriIdx
    if strIdx = "-1" then
      let s32MaxIdx ← incr s32MaxIdx
      let obj ← obj.set strAttriIdx (.string (toString s32MaxIdx))
      let objs ← fillIdx s32MaxIdx objs
      pure (obj :: objs)
    else
      let objs ← fillIdx s32MaxIdx objs
      pure (obj :: objs)

namespace CfgMng

/-- The turn of the index loop for one sub-node: the sub-node with its indices. -/
def allocSubNode (strRootNode : String) (it : Option String × Json) : Cmd Json := do
  let strSubNodeKey ← fromExcept (Json.keyOf it.1)
  let s32MaxIdx ← onCfg (Json.onPath
    (fun v =>
      let (r, objs) := maxIdx 0 v.elems
      (r, v.withElems objs))
    [.key strRootNode, .key strSubNodeKey])
  let objs ← fromExcept (fillIdx s32MaxIdx it.2.elems)
  pure (it.2.withElems objs)

def allocSubNodes (strRootNode : String) : List (Option String × Json) → Cmd (List Json)
  | [] => pure []
  | it :: its => do
    let v ← allocSubNode strRootNode it
    let vs ← allocSubNodes strRootNode its
    pure (v :: vs)

/-- `erase(find(strRootNode))`, then the assignment. Erasing the end is not defined. -/
def replaceRoot (strRootNode : String) (jSubNode : Json) (j : Json) : Except Exn Unit × Json :=
  match j with
  | .object m =>
    match SortedMap.find? m strRootNode with
    | some _ => (.ok (), .object (SortedMap.insert (SortedMap.erase m strRootNode) strRootNode jSubNode))
    | none => (.error .undefined, j)
  | _ => (.error (.type_error 307), j)

/-- Whether the delete handler is attached to the topic that the update publishes on. -/
def delAttached (exFactory : CfgObjMap) : Bool :=
  (exFactory.getList (strDbNode ++ strDbSqliteNode)).any fun val =>
    match val.attr strAttriType with
    | .ok strDBType => SqliteDelDBTopic strDBType == SqliteDelDBTopic strAttriSqliteSvrValue
    | .error _ => false

/-- The update of the tables. -/
def updateDb (exFactory : CfgObjMap) (strRootNode : String) : Cmd Unit := fun s =>
  match exFactory.getFirst (strDbNode ++ strDbSqliteNode) with
  | none => .ok () s
  | some _ =>
    let s := if delAttached exFactory then { s with db := s.db.deleteFrom strRootNode } else s
    onDb (DBTableOpt exFactory s.m_mapRuntimeSysCfg false) s

def RuntimeSysCfgUpdate (exFactory : CfgObjMap) (strRootNode : String) (jSubNode : Json) : Cmd Unit := do
  let vs ← allocSubNodes strRootNode jSubNode.items
  onCfg (replaceRoot strRootNode (jSubNode.withElems vs))
  modify fun s => { s with m_mapRuntimeSysCfg := [] }
  let s ← get
  onMap (ParseJson s.m_jRuntimeSysCfg)
  updateDb exFactory strRootNode

end CfgMng

/-- A command as the manager meets it. -/
structure Command where
  u32Cmd : UInt8
  /-- What `Json::parse` makes of the body. -/
  body : Except Exn Json
  sorted : ∀ j, body = .ok j → j.Sorted
  /-- What `AppUpdate` throws. -/
  appUpdate : Option Exn
  /-- What `TransUpdate` throws. -/
  transUpdate : Option Exn

/-- The renaming of `task_flag` in an entry of command 0x13. -/
def renameTaskFlag (obj : Json) : Except Exn Json := do
  let strFlag ← obj.attr strAttriTaskFlag
  let obj ← obj.set strAttriType (.string strFlag)
  match obj with
  | .object m => pure (.object (SortedMap.erase m strAttriTaskFlag))
  | obj => pure obj

def renameTaskFlags : List Json → Except Exn (List Json)
  | [] => .ok []
  | obj :: objs => do
    let obj ← renameTaskFlag obj
    let objs ← renameTaskFlags objs
    pure (obj :: objs)

/-- The root node that a command updates, and the sub-nodes it submits. -/
def Command.update (c : Command) : Option (String × Except Exn Json) :=
  if c.u32Cmd = 0x13 then
    some (strAppNode, do
      let jTasks ← c.body
      let objs ← renameTaskFlags jTasks.elems
      pure (.object [(strAppCommSafeNode, jTasks.withElems objs)]))
  else if c.u32Cmd = 0x14 then some (strTransferNode, c.body)
  else if c.u32Cmd = 0x15 then some (strDbNode, c.body)
  else none

def throwOption {σ : Type} : Option Exn → EStateM Exn σ Unit
  | none => pure ()
  | some e => throw e

/-- The runtime updates behind the update of the configuration. -/
def Command.hooks {σ : Type} (c : Command) : EStateM Exn σ Unit := do
  if c.u32Cmd = 0x14 then throwOption c.transUpdate
  if c.u32Cmd = 0x13 ∨ c.u32Cmd = 0x14 then throwOption c.appUpdate

def jResultOk : Json := .object [(strAttriResult, .string strAttriValueOk)]

/-- A data source in the reply to command 0x12. -/
def dataSrcInfo (m : CfgObjMap) (subObj : Json) : Except Exn Json := do
  let strTransId ← subObj.attr strAttriTransferId
  match m.getFirst strTransId with
  | none => pure .null
  | some jDesc =>
    let strDesc ← jDesc.attr strAttriDesc
    pure (.object [(strAttriDesc, .string strDesc), (strAttriTransferId, .string strTransId)])

/-- A task in the reply to command 0x12. -/
def taskInfo (m : CfgObjMap) (obj : Json) : Except Exn Json := do
  let strTaskFlag ← obj.attr strAttriType
  let strAlgIdx ← obj.attr strAttriAlgIdx
  let jList ← obj.child strAttriDataSrc
  let jDataSrc ← jList.elems.mapM (dataSrcInfo m)
  let strTaskLst ← obj.attr strAttriTaskLst
  let strStartTime ← obj.attr strAttriStartTime
  let strEndTime ← obj.attr strAttriEndTime
  let strIdx ← obj.attr strAttriIdx
  pure (.object ([(strAttriAlgIdx, .string strAlgIdx)] ++
    (if jDataSrc.isEmpty then [] else [(strAttriDataSrc, .array jDataSrc)]) ++
    [(strAttriEndTime, .string strEndTime), (strAttriIdx, .string strIdx),
      (strAttriStartTime, .string strStartTime), (strAttriTaskFlag, .string strTaskFlag),
      (strAttriTaskLst, .string strTaskLst)]))

namespace CfgMng

/-- Command 0x11. -/
def queryCfg : Cmd Json := do
  let jTransfer ← onCfg (Json.read [.key strTransferNode])
  let jDb ← onCfg (Json.read [.key strDbNode])
  let jDetectAlgCfg ← onCfg (Json.read [.key strAlgNode, .key strAlgDetectNode, .idx 0])
  let jActionAlgCfg ← onCfg (Json.read [.key strAlgNode, .key strAlgActionNode, .idx 0])
  let strDetectLst ←
    onCfg (Json.readStr [.key strTaskNode, .key strTaskDetectNode, .idx 0, .key strAttriLst])
  let jDetectAlgCfg ← fromExcept (jDetectAlgCfg.set strAttriTaskLst (.string strDetectLst))
  let strActionLst ←
    onCfg (Json.readStr [.key strTaskNode, .key strTaskActionNode, .idx 0, .key strAttriLst])
  let jActionAlgCfg ← fromExcept (jActionAlgCfg.set strAttriTaskLst (.string strActionLst))
  pure (.object [(strAlgNode, .object [(strAlgActionNode, jActionAlgCfg), (strAlgDetectNode, jDetectAlgCfg)]),
    (strDbNode, jDb), (strTransferNode, jTransfer)])

/-- Command 0x12. -/
def queryTasks : Cmd Json := do
  let jApp ← onCfg (Json.read [.key strAppNode])
  let s ← get
  let jTasks ← fromExcept ((jApp.elems.flatMap Json.elems).mapM (taskInfo s.m_mapRuntimeSysCfg))
  pure (if jTasks.isEmpty then .null else .array jTasks)

/-- Commands 0x13, 0x14 and 0x15. -/
def updateCommand (exFactory : CfgObjMap) (c : Command) (strRootNode : String)
    (jSubNode : Except Exn Json) : Cmd Json := do
  let jSubNode ← fromExcept jSubNode
  RuntimeSysCfgUpdate exFactory strRootNode jSubNode
  c.hooks
  pure jResultOk

/-- The reply to a command, if it gets one. -/
def RecTcpProtocolMsg (exFactory : CfgObjMap) (c : Command) : Cmd (Option Json) :=
  if c.u32Cmd = 0x11 then some <$> queryCfg
  else if c.u32Cmd = 0x12 then some <$> queryTasks
  else
    match c.update with
    | some (strRootNode, jSubNode) => some <$> updateCommand exFactory c strRootNode jSubNode
    | none => pure none

end CfgMng

end Perception.Cfg
