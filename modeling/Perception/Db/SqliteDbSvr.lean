import Perception.Cfg.ParseJson
import Perception.Db.SqliteDbMng
import Perception.Lib.Collect

/-!
# Writing the configuration into tables

The table functions of `SqliteDbSvr` walk the values filed under a root node, make a row
of every entry and initialise a table with the rows. They differ in their columns only.
Nested objects are flattened into text with the separators ':', '|' and '&'.
-/
namespace Perception.Db

set_option autoImplicit false

open Perception.Lib Perception.Cfg StateExcept

def strAttriNode : String := "node"
def strAttriIp : String := "ip"
def strAttriPort : String := "port"
def strAttriParams : String := "params"
def strAttriEnable : String := "enable"
def strAttriDesc : String := "desc"
def strAttriName : String := "name"
def strAttriVersion : String := "version"
def strAttriModel : String := "model"
def strAttriLst : String := "lst"
def strAttriAlgIdx : String := "alg_idx"
def strAttriDataSrc : String := "data_src"
def strAttriTaskLst : String := "task_lst"
def strAttriStartTime : String := "start_time"
def strAttriEndTime : String := "end_time"

def strDBDetectReportTable : String := "DetectReportTable"
def strDBFaceRegisteTable : String := "FaceRegisteTable"
def strDBFaceReportTable : String := "FaceReportTable"

/-- What is left of characters that are read as a C string. -/
def cString (s : List Char) : List Char := s.takeWhile (· ≠ Char.ofNat 0)

/-- What is left of a text that is passed on as `c_str()`. -/
def c_str (s : String) : String := String.ofList (cString s.toList)

/-- One member, as `ParseSubElmFun` appends it. -/
def memberText (it : Option String × Json) : Except Exn (List Char) := do
  let strAttribute ← Json.keyOf it.1
  let strValue ← it.2.toStr
  pure (strAttribute.toList ++ ':' :: strValue.toList ++ ['|'])

/-- What `ParseSubElmFun` appends to its result. -/
def ParseSubElmFun (strSubName : String) (elm : Json) : Except Exn (List Char) := do
  let subElm ← if strSubName = "" then pure elm else elm.constChild strSubName
  collect memberText subElm.items

/-- The columns: a string attribute, a nested object, a list of nested objects. -/
inductive Column where
  | attr (name : String)
  | nested (name : String)
  | nestedList (name : String)

namespace Column

def name : Column → String
  | .attr name => name
  | .nested name => name
  | .nestedList name => name

/-- One nested object of a list, with the separator behind it. -/
def groupText (subElm : Json) : Except Exn (List Char) := do
  let strText ← ParseSubElmFun "" subElm
  pure (strText ++ ['&'])

/-- The text that an entry has in the column. -/
def text : Column → Json → Except Exn String
  | .attr name, elm => elm.attr name
  | .nested name, elm => do
    let strText ← ParseSubElmFun name elm
    pure (String.ofList (strText ++ ['&']))
  | .nestedList name, elm => do
    let jList ← elm.child name
    let strText ← collect groupText jList.elems
    pure (String.ofList strText)

/-- The column with its text, as it is written. -/
def cell (elm : Json) (c : Column) : Except Exn (List (String × String)) := do
  let strText ← c.text elm
  pure [(c.name, c_str strText)]

end Column

/-- The row of an entry of the sub-node `strSubNode`. -/
def rowOf (cols : List Column) (strSubNode : String) (elm : Json) : Except Exn (List Row) := do
  let cells ← collect (Column.cell elm) cols
  pure [(strAttriNode, c_str strSubNode) :: cells]

/-- The rows of a sub-node. -/
def subNodeRows (cols : List Column) (it : Option String × Json) : Except Exn (List Row) := do
  let strSubNode ← Json.keyOf it.1
  collect (rowOf cols strSubNode) it.2.elems

/-- The rows of a root node. -/
def nodeRows (cols : List Column) (val : Json) : Except Exn (List Row) :=
  collect (subNodeRows cols) val.items

/-- A table function: nothing when nothing is configured, else the rows of all values. -/
def tableDbOpt (cols : List Column) (strTable : String) (vecCfg : List Json) :
    EStateM Exn Sqlite Unit :=
  if vecCfg.isEmpty then pure ()
  else do
    let rows ← fromExcept (collect (nodeRows cols) vecCfg)
    modify fun db : Sqlite => db.InitDb strTable (some rows)

def appColumns : List Column :=
  [.attr strAttriType, .attr strAttriAlgIdx, .nestedList strAttriDataSrc, .attr strAttriTaskLst,
    .attr strAttriStartTime, .attr strAttriEndTime, .attr strAttriIdx]

def taskColumns : List Column := [.attr strAttriType, .attr strAttriLst, .attr strAttriIdx]

def algColumns : List Column :=
  [.attr strAttriType, .attr strAttriName, .attr strAttriVersion, .nested strAttriModel,
    .nested strAttriParams, .attr strAttriEnable, .attr strAttriIdx, .attr strAttriDesc]

def dbOrTransferColumns : List Column :=
  [.attr strAttriType, .attr strAttriIp, .attr strAttriPort, .nested strAttriParams,
    .attr strAttriEnable, .attr strAttriIdx, .attr strAttriDesc]

def AppCfgTableDbOpt (cfg : CfgObjMap) : EStateM Exn Sqlite Unit :=
  tableDbOpt appColumns strAppNode (cfg.getList strAppNode)

def TaskCfgTableDbOpt (cfg : CfgObjMap) : EStateM Exn Sqlite Unit :=
  tableDbOpt taskColumns strTaskNode (cfg.getList strTaskNode)

def AlgCfgTableDbOpt (cfg : CfgObjMap) : EStateM Exn Sqlite Unit :=
  tableDbOpt algColumns strAlgNode (cfg.getList strAlgNode)

def DbOrTransferTableOpt (cfg : CfgObjMap) (strNode : String) : EStateM Exn Sqlite Unit :=
  tableDbOpt dbOrTransferColumns strNode (cfg.getList strNode)

/-- A table of records, which is only created. -/
def recordTableOpt (strTable : String) : EStateM Exn Sqlite Unit :=
  modify fun db : Sqlite => db.InitDb strTable none

def DetectReportTableOpt : EStateM Exn Sqlite Unit := recordTableOpt strDBDetectReportTable
def FaceRegisteTableOpt : EStateM Exn Sqlite Unit := recordTableOpt strDBFaceRegisteTable
def FaceReportTableOpt : EStateM Exn Sqlite Unit := recordTableOpt strDBFaceReportTable

/-- `DBTableOpt`, from the factory configuration when `bInit`, else from the runtime
configuration. -/
def DBTableOpt (exFactory runtime : CfgObjMap) (bInit : Bool) : EStateM Exn Sqlite Unit := do
  let cfg := if bInit then exFactory else runtime
  AppCfgTableDbOpt cfg
  TaskCfgTableDbOpt cfg
  AlgCfgTableDbOpt cfg
  DbOrTransferTableOpt cfg strTransferNode
  DbOrTransferTableOpt cfg strDbNode
  if bInit then
    DetectReportTableOpt
    FaceRegisteTableOpt
    FaceReportTableOpt

/-- The columns of the table of a root node. -/
def columnsOf (strNode : String) : List Column :=
  if strNode = strAppNode then appColumns
  else if strNode = strTaskNode then taskColumns
  else if strNode = strAlgNode then algColumns
  else dbOrTransferColumns

/-- Every table has a text column, and its rows are refused for a value that is not an
object. -/
theorem rowOf_string (r s t : String) : ∀ rows, rowOf (columnsOf r) s (.string t) ≠ .ok rows := by
  intro rows
  unfold columnsOf
  split
  · exact fun h => by cases h
  · split
    · exact fun h => by cases h
    · split <;> exact fun h => by cases h

/-- The walk over an entry throws at its member `type`, which is a text. -/
theorem nodeRows_entry {j : Json} (he : isEntry j = true) (r : String) :
    ∀ rows, nodeRows (columnsOf r) j ≠ .ok rows := by
  intro rows h
  obtain ⟨s, hit⟩ := exists_type_of_isEntry he
  obtain ⟨ys, hys⟩ := ok_of_collect h _ hit
  change collect (rowOf (columnsOf r) strAttriType) [.string s] = .ok ys at hys
  rw [collect_singleton] at hys
  exact rowOf_string r strAttriType s ys hys

/-- Rows can be made of a list of values only if none of them is an entry. -/
theorem not_isEntry_of_rows {r : String} {vecCfg : List Json} {rows : List Row}
    (h : collect (nodeRows (columnsOf r)) vecCfg = .ok rows) : ∀ j ∈ vecCfg, isEntry j = false := by
  intro j hj
  obtain ⟨ys, hys⟩ := ok_of_collect h j hj
  cases he : isEntry j with
  | false => rfl
  | true => exact absurd hys (nodeRows_entry he r ys)

end Perception.Db
