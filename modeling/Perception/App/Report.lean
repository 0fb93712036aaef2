import Perception.App.CommSafe
import Perception.Lib.AutoTable

/-!
# The alerts as a client reads them

A client asks for the first and the last id and the number of the alerts, and then for the
alerts from an id on, a batch at a time. Numbers come and go as texts.
-/
namespace Perception.App

set_option autoImplicit false

open Perception.Lib Perception.Cfg Perception.Db Perception.Alg

def strAttriAlgIdx : String := "alg_idx"
def strAttriAlertType : String := "alert_type"
def strAttriAlertDate : String := "alert_date"
def strAttriImg : String := "img"
def strAttriStartIdx : String := "start_idx"
def strAttriEndIdx : String := "end_idx"
def strAttriTotalSize : String := "total_size"
def strAttriBatchSize : String := "batch_size"
def strAttriRecord : String := "record"

/-- A row of `DetectReportTable`. -/
structure DetectRow extends DetectReport where
  alert_date : String
  img : String

/-- The columns behind the id. -/
def DetectRow.columns (row : DetectRow) : List (String × String) :=
  [(strAttriTaskFlag, row.task_flag), (strAttriAlgIdx, row.alg_idx), (strAttriAlertType, row.alert_type),
    (strAttriAlertDate, row.alert_date), (strAttriDataSrc, row.data_src), (strAttriImg, row.img)]

/-- Conversion to `int`. -/
def toInt (n : Int) : Int := n.bmod 4294967296

/-- `xs[i]`. -/
def index {α : Type} (xs : List α) (i : Int) : Except Exn α :=
  match if 0 ≤ i then xs[i.toNat]? else none with
  | some a => .ok a
  | none => .error .undefined

/-- The data source, as `<type><idx>:<desc>`; another text is left out. -/
def dataSrcOf (strValue : String) : Json :=
  match Strtok strValue.toList ':' with
  | [strTransferId, strDesc] =>
    .object [(strAttriDesc, .string (String.ofList strDesc)), (strAttriTransferId, .string (String.ofList strTransferId))]
  | _ => .null

def recordCells (jRecord : List (String × Json)) : List (String × String) → List (String × Json)
  | [] => jRecord
  | (strKey, strValue) :: cells =>
    if strKey.isEmpty then jRecord
    else if strKey = strAttriDataSrc then
      recordCells (SortedMap.insert jRecord strAttriDataSrc (dataSrcOf strValue)) cells
    else recordCells (SortedMap.insert jRecord strKey (.string strValue)) cells

/-- The record for a row; the id is the first column. -/
def recordOf (row : Int × DetectRow) : Json :=
  .object (recordCells [(strAttriIdx, .string (toString row.1))] row.2.columns)

/-- The reply with the number of the alerts. -/
def infoReply (s32Min s32Max len : Int) : Json :=
  .object [(strAttriEndIdx, .string (toString s32Max)), (strAttriStartIdx, .string (toString s32Min)),
    (strAttriTotalSize, .string (toString len))]

/-- The reply with a batch. -/
def batchReply (strRspStartIdx strRspEndIdx : String) (vecResult : List Json) : Json :=
  .object [(strAttriBatchSize, .string (toString (toInt vecResult.length))), (strAttriEndIdx, .string strRspEndIdx),
    (strAttriRecord, .array vecResult), (strAttriStartIdx, .string strRspStartIdx)]

/-- Without an object there is nothing to report. -/
def ReportInfo {A : Type} (mapShrPtr : List (String × A)) (info : A → Except Exn Json) : Except Exn Json :=
  match mapShrPtr with
  | [] => pure (infoReply 0 (-1) 0)
  | (_, obj) :: _ => info obj

/-- A request, parsed, is answered by the first object. -/
def ReportBatch {A : Type} (mapShrPtr : List (String × A)) (result : A → Int → Int → Except Exn (List Json))
    (jReqData : Json) : Except Exn Json :=
  match mapShrPtr with
  | [] => pure .null
  | (_, obj) :: _ => do
    let s32ReqStartIdx := atoi (← jReqData.attr strAttriStartIdx)
    let s32ReqBatchSize := atoi (← jReqData.attr strAttriBatchSize)
    let vecResult ← result obj s32ReqStartIdx s32ReqBatchSize
    let s32ResultCount := toInt vecResult.length
    if s32ResultCount = 0 then pure .null
    else do
      let first ← index vecResult 0
      let strRspStartIdx ← first.attr strAttriIdx
      let last ← index vecResult (s32ResultCount - 1)
      let strRspEndIdx ← last.attr strAttriIdx
      pure (batchReply strRspStartIdx strRspEndIdx vecResult)

namespace CommSafeMng

/-- What a query returns; without the bus the document stays null, and has no size. -/
def ReadDBTableData {α : Type} (s : CommSafeMng) (rows : List α) : Except Exn (List α) :=
  if s.m_ptrMsgBus then .ok rows else .error .undefined

end CommSafeMng

namespace CommSafeDetect

/-- `select id from DetectReportTable order by id asc`. -/
def ReportInfo (s : CommSafeMng) (t : AutoTable DetectRow) (_ : CommSafeDetect) : Except Exn Json := do
  let doc ← s.ReadDBTableData (t.rows.map Prod.fst)
  let len := toInt doc.length
  let vecIdx := (doc.take len.toNat).map toInt
  let s32Min ← if len = 0 then pure 0 else index vecIdx 0
  let s32Max ← if len = 0 then pure (-1) else index vecIdx (len - 1)
  pure (infoReply s32Min s32Max len)

/-- `select * from DetectReportTable where id >= s32StartIdx order by id asc`. The loop counts
in a `size_t`: a negative length takes it past the rows. -/
def ReportResult (s : CommSafeMng) (t : AutoTable DetectRow) (_ : CommSafeDetect)
    (s32StartIdx s32BatchSize : Int) : Except Exn (List Json) := do
  let doc ← s.ReadDBTableData (t.rowsFrom s32StartIdx)
  let len := toInt doc.length
  let len := if s32BatchSize < len then s32BatchSize else len
  if len < 0 then .error .undefined
  else pure ((doc.take len.toNat).map recordOf)

end CommSafeDetect

namespace CommSafeMng

def DetectReportInfo (s : CommSafeMng) (t : AutoTable DetectRow) : Except Exn Json :=
  App.ReportInfo s.m_mapDetectShrPtr (CommSafeDetect.ReportInfo s t)

def DetectReportBatch (s : CommSafeMng) (t : AutoTable DetectRow) (jReqData : Json) : Except Exn Json :=
  App.ReportBatch s.m_mapDetectShrPtr (CommSafeDetect.ReportResult s t) jReqData

end CommSafeMng

theorem find?_recordCells_of_not_mem {k : String} {cells : List (String × String)} (h : k ∉ cells.map Prod.fst)
    (jRecord : List (String × Json)) : SortedMap.find? (recordCells jRecord cells) k = SortedMap.find? jRecord k := by
  induction cells generalizing jRecord with
  | nil => rfl
  | cons cell cells ih =>
    obtain ⟨strKey, strValue⟩ := cell
    rw [List.map_cons, List.mem_cons, not_or] at h
    obtain ⟨hne, hrest⟩ := h
    unfold recordCells
    split
    · rfl
    · split
      · next hsrc =>
        subst hsrc
        rw [ih hrest, SortedMap.find?_insert_of_ne _ _ hne]
      · rw [ih hrest, SortedMap.find?_insert_of_ne _ _ hne]

theorem recordOf_idx (row : Int × DetectRow) : (recordOf row).attr strAttriIdx = .ok (toString row.1) := by
  apply Json.attr_eq_ok.mpr
  have hcolumns : strAttriIdx ∉ row.2.columns.map Prod.fst := by
    show strAttriIdx ∉ [strAttriTaskFlag, strAttriAlgIdx, strAttriAlertType, strAttriAlertDate, strAttriDataSrc, strAttriImg]
    decide
  rw [recordOf, Json.find?_object, find?_recordCells_of_not_mem hcolumns]
  rfl

/-- A column is shown under its name, the data source by its two parts. -/
theorem find?_recordCells {k v : String} {cells : List (String × String)} (hnodup : (cells.map Prod.fst).Nodup)
    (hne : ∀ cell ∈ cells, cell.1 ≠ "") (hcell : (k, v) ∈ cells) (jRecord : List (String × Json)) :
    SortedMap.find? (recordCells jRecord cells) k = some (if k = strAttriDataSrc then dataSrcOf v else .string v) := by
  induction cells generalizing jRecord with
  | nil => cases hcell
  | cons cell cells ih =>
    obtain ⟨strKey, strValue⟩ := cell
    rw [List.map_cons, List.nodup_cons] at hnodup
    have hkey : strKey.isEmpty = false := by
      rw [Bool.eq_false_iff, Ne, String.isEmpty_iff]
      exact hne (strKey, strValue) List.mem_cons_self
    have hstep : ∃ m, recordCells jRecord ((strKey, strValue) :: cells) = recordCells m cells ∧
        SortedMap.find? m strKey = some (if strKey = strAttriDataSrc then dataSrcOf strValue else .string strValue) := by
      by_cases hsrc : strKey = strAttriDataSrc
      · refine ⟨SortedMap.insert jRecord strAttriDataSrc (dataSrcOf strValue), ?_, ?_⟩
        · rw [recordCells, hkey, if_neg Bool.false_ne_true, if_pos hsrc]
        · rw [if_pos hsrc, hsrc, SortedMap.find?_insert_self]
      · refine ⟨SortedMap.insert jRecord strKey (.string strValue), ?_, ?_⟩
        · rw [recordCells, hkey, if_neg Bool.false_ne_true, if_neg hsrc]
        · rw [if_neg hsrc, SortedMap.find?_insert_self]
    obtain ⟨m, hm, hfind⟩ := hstep
    rw [hm]
    rcases List.mem_cons.mp hcell with heq | hcell
    · cases heq
      rw [find?_recordCells_of_not_mem hnodup.1, hfind]
    · exact ih hnodup.2 (fun c hc => hne c (List.mem_cons_of_mem _ hc)) hcell m

theorem cell_ne_empty {cells : List (String × String)} (h : "" ∉ cells.map Prod.fst) : ∀ cell ∈ cells, cell.1 ≠ "" := by
  intro cell hcell hempty
  have hname : cell.1 ∈ cells.map Prod.fst := List.mem_map_of_mem hcell
  rw [hempty] at hname
  exact h hname

theorem find?_recordOf {k v : String} {row : Int × DetectRow} (h : (k, v) ∈ row.2.columns) :
    (recordOf row).find? k = some (if k = strAttriDataSrc then dataSrcOf v else .string v) := by
  have hkeys : row.2.columns.map Prod.fst =
      [strAttriTaskFlag, strAttriAlgIdx, strAttriAlertType, strAttriAlertDate, strAttriDataSrc, strAttriImg] := rfl
  have hnodup : (row.2.columns.map Prod.fst).Nodup := by
    rw [hkeys]
    decide
  have hne : "" ∉ row.2.columns.map Prod.fst := by
    rw [hkeys]
    decide
  exact find?_recordCells hnodup (cell_ne_empty hne) h _

theorem recordOf_data_src (row : Int × DetectRow) : (recordOf row).get strAttriDataSrc = dataSrcOf row.2.data_src := by
  have hcell : (strAttriDataSrc, row.2.data_src) ∈ row.2.columns := by simp [DetectRow.columns]
  refine Json.get_of_find? ?_
  rw [find?_recordOf hcell, if_pos rfl]

end Perception.App
