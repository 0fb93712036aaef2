import Perception.App.AlertHistory
import Perception.App.BatchBounds

/-!
# The source of an alert

`ProResultMsg` files the data source of an alert as one text, its type and index, a colon
and its description, and `ReportResult` takes the text apart again at the colons.
-/
namespace Perception.App

set_option autoImplicit false

open Perception.Lib Perception.Cfg Perception.Db
open AutoTable (Stmt)

/-- The configuration of a data source. -/
structure SourceOf (jDataSrc : Json) (strType strIdx strDesc : String) : Prop where
  type : jDataSrc.attr strAttriType = .ok strType
  idx : jDataSrc.attr strAttriIdx = .ok strIdx
  desc : jDataSrc.attr strAttriDesc = .ok strDesc

/-- The table holds an alert that a detection object made for the data source. -/
def DetectStored (strType strIdx strDesc : String) (t : AutoTable DetectRow) (r : Int × DetectRow) : Prop :=
  r ∈ t.rows ∧ ∃ (obj : CommSafeDetect) (strIp : String) (dets : List detection) (jDataSrc : Json),
    SortedMap.find? obj.m_mapDataSrc strIp = some jDataSrc ∧ SourceOf jDataSrc strType strIdx strDesc ∧
      Stmt.insert r.2.toDetectReport ∈ (obj.ProResultStmts strIp dets).log

/-- The table holds an alert that a face object made for the data source and a face. -/
def FaceStored (strType strIdx strDesc : String) (faceid : Int) (t : AutoTable FaceReportRow) (r : Int × FaceReportRow) :
    Prop :=
  r ∈ t.rows ∧ ∃ (obj : CommSafeFace) (strIp : String) (jDataSrc : Json),
    obj.GetDataSrc strIp = some jDataSrc ∧ SourceOf jDataSrc strType strIdx strDesc ∧
      Stmt.insert r.2.toFaceReport ∈ (obj.ProResultMsg strIp faceid).log

/-- A request for the row with a number, among the rows found. -/
structure Asked {α : Type} (s32StartIdx s32BatchSize id : Int) (doc : List (Int × α)) : Prop where
  start_le : s32StartIdx ≤ id
  size : doc.length ≤ 2147483647
  reached : ∀ row ∈ doc, row.1 = id → row ∈ doc.take s32BatchSize.toNat

/-- The records are returned, and the one with the number shows the source. -/
def Returned (id : Int) (strType strIdx strDesc : String) (x : Traced Nat (List Json)) : Prop :=
  ∃ vecResult, x.val = some vecResult ∧ ∃ jRecord ∈ vecResult, jRecord.attr strAttriIdx = .ok (toString id) ∧
    (jRecord.get strAttriDataSrc).attr strAttriTransferId = .ok (strType ++ strIdx) ∧
      (jRecord.get strAttriDataSrc).attr strAttriDesc = .ok strDesc

/-- Two texts that a colon between them separates. -/
structure Separable (strTransferId strDesc : String) : Prop where
  id_ne : strTransferId ≠ ""
  desc_ne : strDesc ≠ ""
  id_colon : ':' ∉ strTransferId.toList
  desc_colon : ':' ∉ strDesc.toList

/-- The text of a data source. -/
def dataSrcText (strType strIdx strDesc : String) : String := strType ++ strIdx ++ ":" ++ strDesc

/-- The two parts are read back if and only if the colon between them is the only one and
neither is empty. -/
theorem dataSrcOf_text_iff {strType strIdx strDesc : String} (hnul : NulFree (dataSrcText strType strIdx strDesc).toList) :
    ((dataSrcOf (dataSrcText strType strIdx strDesc)).attr strAttriTransferId = .ok (strType ++ strIdx) ∧
      (dataSrcOf (dataSrcText strType strIdx strDesc)).attr strAttriDesc = .ok strDesc) ↔
        Separable (strType ++ strIdx) strDesc := by
  have hchars : (dataSrcText strType strIdx strDesc).toList = (strType ++ strIdx).toList ++ ':' :: strDesc.toList := by
    simp [dataSrcText]
  rw [dataSrcOf_attr_iff]
  constructor
  · intro hparts
    obtain ⟨hid, hidColon, -⟩ := mem_Strtok (hparts ▸ List.mem_cons_self :
      (strType ++ strIdx).toList ∈ Strtok (dataSrcText strType strIdx strDesc).toList ':')
    obtain ⟨hdesc, hdescColon, -⟩ := mem_Strtok (hparts ▸ List.mem_cons_of_mem _ List.mem_cons_self :
      strDesc.toList ∈ Strtok (dataSrcText strType strIdx strDesc).toList ':')
    exact ⟨fun h => hid (by rw [h]; rfl), fun h => hdesc (by rw [h]; rfl), hidColon, hdescColon⟩
  · intro h
    have hid : (strType ++ strIdx).toList ≠ [] := fun hnil => h.id_ne (String.toList_eq_nil_iff.mp hnil)
    have hdesc : strDesc.toList ≠ [] := fun hnil => h.desc_ne (String.toList_eq_nil_iff.mp hnil)
    rw [Strtok_of_nulFree hnul, hchars, strtok_append_cons, strtok_of_not_mem h.id_colon hid,
      strtok_of_not_mem h.desc_colon hdesc]
    rfl

theorem CommSafeDetect.alertRow_data_src {obj : CommSafeDetect} {strIp task : String} {jDataSrc : Json} {row : DetectReport}
    {strType strIdx strDesc : String} (hfind : SortedMap.find? obj.m_mapDataSrc strIp = some jDataSrc)
    (hsrc : SourceOf jDataSrc strType strIdx strDesc) (h : obj.alertRow strIp task = .ok row) :
    row.data_src = dataSrcText strType strIdx strDesc := by
  obtain ⟨_, -, h⟩ := StateExcept.except_bind_eq_ok.mp h
  obtain ⟨_, -, h⟩ := StateExcept.except_bind_eq_ok.mp h
  simp only [hfind, Option.getD_some, hsrc.type, hsrc.idx, hsrc.desc, StateExcept.except_ok_bind] at h
  cases h
  rfl

/-- What is inserted for a row is the row. -/
theorem row_of_storeAlert {α : Type} {n : Nat} {row : Except Exn α} {a : α} (h : Stmt.insert a ∈ (storeAlert n row).log) :
    row = .ok a := by
  cases row with
  | error e =>
    rcases List.mem_cons.mp h with h | h
    · cases h
    · cases h
  | ok row =>
    rcases List.mem_cons.mp h with h | h
    · cases h
    · cases List.mem_singleton.mp h
      rfl

theorem DetectStored.data_src {strType strIdx strDesc : String} {t : AutoTable DetectRow} {r : Int × DetectRow}
    (h : DetectStored strType strIdx strDesc t r) : r.2.data_src = dataSrcText strType strIdx strDesc := by
  obtain ⟨-, obj, strIp, dets, jDataSrc, hfind, hsrc, hlog⟩ := h
  unfold CommSafeDetect.ProResultStmts at hlog
  rw [hfind] at hlog
  obtain ⟨task, -, hturn⟩ := Traced.mem_log_of_forM hlog
  unfold CommSafeDetect.saveAlertStmts at hturn
  split at hturn
  · cases hturn
  · exact obj.alertRow_data_src hfind hsrc (row_of_storeAlert hturn)

theorem FaceStored.row_eq {strType strIdx strDesc : String} {faceid : Int} {t : AutoTable FaceReportRow}
    {r : Int × FaceReportRow} (h : FaceStored strType strIdx strDesc faceid t r) :
    r.2.data_src = dataSrcText strType strIdx strDesc ∧ r.2.face_id = toString faceid := by
  obtain ⟨-, obj, strIp, jDataSrc, hfind, hsrc, hlog⟩ := h
  unfold CommSafeFace.ProResultMsg at hlog
  rw [hfind] at hlog
  dsimp only at hlog
  split at hlog
  · cases hlog
  · have hrow := row_of_storeAlert hlog
    obtain ⟨_, -, hrow⟩ := StateExcept.except_bind_eq_ok.mp hrow
    obtain ⟨_, -, hrow⟩ := StateExcept.except_bind_eq_ok.mp hrow
    simp only [hsrc.type, hsrc.idx, hsrc.desc, StateExcept.except_ok_bind] at hrow
    obtain hrow := Except.ok.inj hrow
    rw [← hrow]
    exact ⟨rfl, rfl⟩

/-- The columns that go into the record itself. -/
def ownCell (cell : String × String) : Bool :=
  decide (cell.1 ∈ [strAttriTaskFlag, strAttriAlgIdx, strAttriAlertType, strAttriAlertDate, strAttriDataSrc])

/-- A record for a face has its own columns as any other. -/
theorem faceCells_fst {cells : List (String × String)} (hne : ∀ cell ∈ cells, cell.1 ≠ "")
    (jRecord jFaceInfo : List (String × Json)) :
    (faceCells jRecord jFaceInfo cells).1 = recordCells jRecord (cells.filter ownCell) := by
  induction cells generalizing jRecord jFaceInfo with
  | nil => rfl
  | cons cell cells ih =>
    obtain ⟨strKey, strValue⟩ := cell
    obtain ⟨hkey, hrest⟩ := List.forall_mem_cons.mp hne
    have hempty : strKey.isEmpty = false := by
      rw [Bool.eq_false_iff, Ne, String.isEmpty_iff]
      exact hkey
    have ih := ih hrest
    rw [faceCells, hempty, if_neg Bool.false_ne_true, List.filter_cons]
    by_cases htext : strKey = strAttriTaskFlag ∨ strKey = strAttriAlgIdx ∨ strKey = strAttriAlertType ∨ strKey = strAttriAlertDate
    · have hown : ownCell (strKey, strValue) = true := by
        rcases htext with h | h | h | h <;> simp [ownCell, h]
      have hsrc : strKey ≠ strAttriDataSrc := by
        rcases htext with h | h | h | h <;> rw [h] <;> decide
      rw [if_pos htext, if_pos hown, recordCells, hempty, if_neg Bool.false_ne_true, if_neg hsrc, ih]
    · rw [if_neg htext]
      by_cases hsrc : strKey = strAttriDataSrc
      · have hown : ownCell (strKey, strValue) = true := by simp [ownCell, hsrc]
        rw [if_pos hsrc, if_pos hown, recordCells, hempty, if_neg Bool.false_ne_true, if_pos hsrc, ih]
      · have hown : ¬ownCell (strKey, strValue) = true := by
          simp only [ownCell, List.mem_cons, List.not_mem_nil, or_false, decide_eq_true_eq]
          tauto
        rw [if_neg hsrc, if_neg hown, ih]

theorem find?_faceRecordOf {k : String} (hk : k ≠ strAttriFaceInfo) (row : Int × FaceAlert) :
    (faceRecordOf row).find? k =
      SortedMap.find? (recordCells [(strAttriIdx, .string (toString row.1))] (row.2.columns.filter ownCell)) k := by
  have hne : "" ∉ row.2.columns.map Prod.fst := by
    show "" ∉ [strAttriTaskFlag, strAttriAlgIdx, strAttriAlertType, strAttriAlertDate, strAttriDataSrc, strAttriIdx,
      strAttriFaceIDImg, strAttriFaceIDCard, strAttriFaceIDName, strAttriWhiteName]
    decide
  rw [faceRecordOf, Json.find?_object, SortedMap.find?_insert_of_ne _ _ hk, faceCells_fst (cell_ne_empty hne)]

theorem ownColumns (row : FaceAlert) : row.columns.filter ownCell =
    [(strAttriTaskFlag, row.report.task_flag), (strAttriAlgIdx, row.report.alg_idx),
      (strAttriAlertType, row.report.alert_type), (strAttriAlertDate, row.report.alert_date),
      (strAttriDataSrc, row.report.data_src)] := rfl

theorem faceRecordOf_idx (row : Int × FaceAlert) : (faceRecordOf row).attr strAttriIdx = .ok (toString row.1) := by
  apply Json.attr_eq_ok.mpr
  have hcolumns : strAttriIdx ∉ (row.2.columns.filter ownCell).map Prod.fst := by
    rw [ownColumns]
    show strAttriIdx ∉ [strAttriTaskFlag, strAttriAlgIdx, strAttriAlertType, strAttriAlertDate, strAttriDataSrc]
    decide
  rw [find?_faceRecordOf (by decide), find?_recordCells_of_not_mem hcolumns]
  rfl

theorem faceRecordOf_data_src (row : Int × FaceAlert) :
    (faceRecordOf row).get strAttriDataSrc = dataSrcOf row.2.report.data_src := by
  have hnames : (row.2.columns.filter ownCell).map Prod.fst =
      [strAttriTaskFlag, strAttriAlgIdx, strAttriAlertType, strAttriAlertDate, strAttriDataSrc] := by
    rw [ownColumns]
    rfl
  have hnodup : ((row.2.columns.filter ownCell).map Prod.fst).Nodup := by
    rw [hnames]
    decide
  have hne : "" ∉ (row.2.columns.filter ownCell).map Prod.fst := by
    rw [hnames]
    decide
  have hcell : (strAttriDataSrc, row.2.report.data_src) ∈ row.2.columns.filter ownCell := by
    rw [ownColumns]
    simp
  refine Json.get_of_find? ?_
  rw [find?_faceRecordOf (by decide), find?_recordCells hnodup (cell_ne_empty hne) hcell, if_pos rfl]

/-- A record is returned with its source if and only if a row with the number is found and the
source can be told from its text. -/
theorem returned_iff {α : Type} (record : Int × α → Json) (data_src : α → String)
    (hidx : ∀ row, (record row).attr strAttriIdx = .ok (toString row.1))
    (hsrc : ∀ row, (record row).get strAttriDataSrc = dataSrcOf (data_src row.2)) {s : CommSafeMng}
    (hbus : s.m_ptrMsgBus = true) {doc : List (Int × α)} {id : Int} {strType strIdx strDesc : String} (hnul : NulFree (dataSrcText strType strIdx strDesc).toList)
    (htext : ∀ row ∈ doc, row.1 = id → data_src row.2 = dataSrcText strType strIdx strDesc) {s32StartIdx s32BatchSize : Int}
    (hasked : Asked s32StartIdx s32BatchSize id doc) :
    Returned id strType strIdx strDesc (readRecords record s32BatchSize (s.ReadDBTableData doc)) ↔
      (∃ row ∈ doc, row.1 = id) ∧ Separable (strType ++ strIdx) strDesc := by
  have hread : s.ReadDBTableData doc = .ok doc := if_pos hbus
  rw [hread, ← dataSrcOf_text_iff hnul]
  constructor
  · intro ⟨vecResult, hval, jRecord, hrecord, hnumber, hshows⟩
    obtain ⟨rows, hrows, rfl⟩ := exists_rows_of_val hval
    obtain ⟨row, hrow, rfl⟩ := List.mem_map.mp hrecord
    have hsame : row.1 = id :=
      toString_int_injective (Except.ok.inj ((hidx row).symm.trans hnumber))
    rw [hsrc, htext row (hrows row hrow) hsame] at hshows
    exact ⟨⟨row, hrows row hrow, hsame⟩, hshows⟩
  · intro ⟨⟨row, hrow, hsame⟩, hshows⟩
    have htake := hasked.reached row hrow hsame
    have hbatch : 0 ≤ s32BatchSize := by
      by_contra hneg
      have hzero : s32BatchSize.toNat = 0 := by omega
      rw [hzero, List.take_zero] at htake
      cases htake
    refine ⟨_, val_reportRecords_take record hbatch hasked.size, record row, List.mem_map_of_mem htake, ?_, ?_⟩
    · rw [hidx, hsame]
    · rw [hsrc, htext row hrow hsame]
      exact hshows

theorem mem_innerJoin {eqv : String → Int → Bool} {a : List (Int × FaceReportRow)} {b : List (Int × FaceRow)}
    {row : Int × FaceAlert} : row ∈ innerJoin eqv a b ↔
      (row.1, row.2.report) ∈ a ∧ ∃ id, (id, row.2.face) ∈ b ∧ eqv row.2.report.face_id id = true := by
  unfold innerJoin
  rw [List.mem_flatMap]
  constructor
  · intro ⟨report, hreport, hrow⟩
    obtain ⟨face, hface, rfl⟩ := List.mem_map.mp hrow
    obtain ⟨hmem, heqv⟩ := List.mem_filter.mp hface
    exact ⟨hreport, face.1, hmem, heqv⟩
  · intro ⟨hreport, id, hface, heqv⟩
    exact ⟨_, hreport, List.mem_map.mpr ⟨(id, row.2.face), List.mem_filter.mpr ⟨hface, heqv⟩, rfl⟩⟩

/-- A row of the join for an alert is there if and only if its face is in the library. -/
theorem exists_mem_innerJoin_iff {eqv : String → Int → Bool} (heqv : ∀ n id : Int, eqv (toString n) id = true ↔ n = id)
    {t : AutoTable FaceReportRow} {faces : AutoTable FaceRow} {r : Int × FaceReportRow} {faceid : Int} (hr : r ∈ t.rows)
    (hface : r.2.face_id = toString faceid) {s32StartIdx : Int} (hstart : s32StartIdx ≤ r.1) :
    (∃ row ∈ innerJoin eqv (t.rowsFrom s32StartIdx) faces.rows, row.1 = r.1) ↔ ∃ face, (faceid, face) ∈ faces.rows := by
  constructor
  · intro ⟨row, hmem, hsame⟩
    obtain ⟨hreport, id, hlib, hid⟩ := mem_innerJoin.mp hmem
    have heq := AutoTable.eq_of_number_eq (AutoTable.mem_rows_of_mem_rowsFrom hreport) hr hsame
    have hid' : eqv r.2.face_id id = true := by
      rw [← congrArg Prod.snd heq]
      exact hid
    rw [hface, heqv] at hid'
    exact ⟨row.2.face, hid' ▸ hlib⟩
  · intro ⟨face, hlib⟩
    refine ⟨(r.1, ⟨r.2, face⟩), mem_innerJoin.mpr ⟨?_, faceid, hlib, ?_⟩, rfl⟩
    · exact List.mem_filter.mpr ⟨hr, decide_eq_true hstart⟩
    · show eqv r.2.face_id faceid = true
      rw [hface, heqv]

section Returned

variable {s : CommSafeMng} (hbus : s.m_ptrMsgBus = true) {strType strIdx strDesc : String}
  (hnul : NulFree (dataSrcText strType strIdx strDesc).toList) {s32StartIdx s32BatchSize : Int}

include hbus hnul

theorem detect_returned_iff {t : AutoTable DetectRow} {r : Int × DetectRow} (hstored : DetectStored strType strIdx strDesc t r)
    (hasked : Asked s32StartIdx s32BatchSize r.1 (t.rowsFrom s32StartIdx)) :
    Returned r.1 strType strIdx strDesc (CommSafeDetect.ReportResultReads s t s32StartIdx s32BatchSize) ↔
      Separable (strType ++ strIdx) strDesc := by
  have hrow : ∀ row ∈ t.rowsFrom s32StartIdx, row ∈ t.rows := fun row => AutoTable.mem_rows_of_mem_rowsFrom
  have hfound : ∃ row ∈ t.rowsFrom s32StartIdx, row.1 = r.1 :=
    ⟨r, List.mem_filter.mpr ⟨hstored.1, decide_eq_true hasked.start_le⟩, rfl⟩
  have htext : ∀ row ∈ t.rowsFrom s32StartIdx, row.1 = r.1 → row.2.data_src = dataSrcText strType strIdx strDesc := by
    intro row hmem hsame
    rw [AutoTable.eq_of_number_eq (hrow row hmem) hstored.1 hsame]
    exact hstored.data_src
  have hiff := returned_iff recordOf (fun row => row.data_src) recordOf_idx recordOf_data_src hbus hnul htext
    hasked
  exact hiff.trans (and_iff_right hfound)

theorem face_returned_iff {eqv : String → Int → Bool} (heqv : ∀ n id : Int, eqv (toString n) id = true ↔ n = id)
    {t : AutoTable FaceReportRow} {faces : AutoTable FaceRow} {r : Int × FaceReportRow} {faceid : Int}
    (hstored : FaceStored strType strIdx strDesc faceid t r)
    (hasked : Asked s32StartIdx s32BatchSize r.1 (innerJoin eqv (t.rowsFrom s32StartIdx) faces.rows)) :
    Returned r.1 strType strIdx strDesc (CommSafeFace.ReportResult eqv s t faces s32StartIdx s32BatchSize) ↔
      (∃ face, (faceid, face) ∈ faces.rows) ∧ Separable (strType ++ strIdx) strDesc := by
  obtain ⟨hdata, hface⟩ := hstored.row_eq
  have hrow : ∀ row ∈ innerJoin eqv (t.rowsFrom s32StartIdx) faces.rows, (row.1, row.2.report) ∈ t.rows :=
    fun row hmem => AutoTable.mem_rows_of_mem_rowsFrom (mem_innerJoin.mp hmem).1
  have htext : ∀ row ∈ innerJoin eqv (t.rowsFrom s32StartIdx) faces.rows, row.1 = r.1 →
      row.2.report.data_src = dataSrcText strType strIdx strDesc := by
    intro row hmem hsame
    have heq := AutoTable.eq_of_number_eq (hrow row hmem) hstored.1 hsame
    rw [← hdata, ← congrArg Prod.snd heq]
  have hiff := returned_iff faceRecordOf (fun row => row.report.data_src) faceRecordOf_idx faceRecordOf_data_src hbus
    hnul htext hasked
  exact hiff.trans (and_congr_left' (exists_mem_innerJoin_iff heqv hstored.1 hface hasked.start_le))

end Returned

/-- A detection object with one data source, which has the given description. -/
def gateObject (strDesc : String) : CommSafeDetect where
  m_jTaskCfg := .object [(strAttriIdx, .string "1"), (strAttriType, .string "Detect")]
  m_lstStrTask := ["0"]
  m_mapDataSrc := [("10.0.78.20", .object [(strAttriDesc, .string strDesc), (strAttriIdx, .string "1"),
    (strAttriType, .string "rtspcli")])]
  m_ptrMsgBus := true

/-- A person that it saw. -/
def gateAlert (strDesc : String) : DetectRow :=
  ⟨⟨"Detect1", "0", "0", "rtspcli1" ++ ":" ++ strDesc⟩, "2020-08-07 13:12:12", ""⟩

def gateAlerts (strDesc : String) : AutoTable DetectRow := (AutoTable.empty 0).insert (gateAlert strDesc)

theorem gateAlerts_stored (strDesc : String) :
    DetectStored "rtspcli" "1" strDesc (gateAlerts strDesc) (1, gateAlert strDesc) := by
  refine ⟨List.mem_singleton_self _, gateObject strDesc, "10.0.78.20", [⟨⟨0, 0, 0, 0⟩, 0, true⟩], _, rfl, ⟨rfl, rfl, rfl⟩, ?_⟩
  exact List.mem_cons_of_mem _ List.mem_cons_self

theorem gateAlerts_asked (strDesc : String) : Asked 1 1 1 ((gateAlerts strDesc).rowsFrom 1) :=
  ⟨Int.le_refl 1, Nat.le_of_lt (Nat.lt_add_left _ (Nat.lt_succ_self 1)), fun _ hrow _ => hrow⟩

/-- An alert comes back with its source if and only if neither the type with the index nor the
description is empty or has a colon; for a face, its row in the library must still be there. -/
theorem alert_returned_iff {eqv : String → Int → Bool} (heqv : ∀ n id : Int, eqv (toString n) id = true ↔ n = id)
    {s : CommSafeMng} (hbus : s.m_ptrMsgBus = true) {strType strIdx strDesc : String}
    (hnul : NulFree (dataSrcText strType strIdx strDesc).toList) (s32StartIdx s32BatchSize : Int) :
    (∀ (t : AutoTable DetectRow) (r : Int × DetectRow), DetectStored strType strIdx strDesc t r →
      Asked s32StartIdx s32BatchSize r.1 (t.rowsFrom s32StartIdx) →
        (Returned r.1 strType strIdx strDesc (CommSafeDetect.ReportResultReads s t s32StartIdx s32BatchSize) ↔
          Separable (strType ++ strIdx) strDesc)) ∧
    (∀ (t : AutoTable FaceReportRow) (faces : AutoTable FaceRow) (r : Int × FaceReportRow) (faceid : Int),
      FaceStored strType strIdx strDesc faceid t r →
      Asked s32StartIdx s32BatchSize r.1 (innerJoin eqv (t.rowsFrom s32StartIdx) faces.rows) →
        (Returned r.1 strType strIdx strDesc (CommSafeFace.ReportResult eqv s t faces s32StartIdx s32BatchSize) ↔
          (∃ face, (faceid, face) ∈ faces.rows) ∧ Separable (strType ++ strIdx) strDesc)) :=
  ⟨fun _ _ => detect_returned_iff hbus hnul, fun _ _ _ _ => face_returned_iff hbus hnul heqv⟩

/-- A source with a plain description. -/
theorem gate_returned :
    Returned 1 "rtspcli" "1" "gate" (CommSafeDetect.ReportResultReads servingApp (gateAlerts "gate") 1 1) := by
  have heqv : ∀ n id : Int, decide (toString n = toString id) = true ↔ n = id := by
    intro n id
    rw [decide_eq_true_iff]
    exact ⟨toString_int_injective, congrArg toString⟩
  have hnul : NulFree (dataSrcText "rtspcli" "1" "gate").toList := by
    unfold NulFree
    decide
  have hiff := (@alert_returned_iff (fun v id => decide (v = toString id)) heqv servingApp rfl _ _ _ hnul 1 1).1
    (gateAlerts "gate") (1, gateAlert "gate") (gateAlerts_stored "gate") (gateAlerts_asked "gate")
  exact hiff.mpr ⟨by decide, by decide, by decide, by decide⟩

/-- A source with a colon in its description. -/
theorem not_returned_colon :
    DetectStored "rtspcli" "1" "gate:3" (gateAlerts "gate:3") (1, gateAlert "gate:3") ∧
      Asked 1 1 1 ((gateAlerts "gate:3").rowsFrom 1) ∧
        ¬ Returned 1 "rtspcli" "1" "gate:3" (CommSafeDetect.ReportResultReads servingApp (gateAlerts "gate:3") 1 1) := by
  have hnul : NulFree (dataSrcText "rtspcli" "1" "gate:3").toList := by
    unfold NulFree
    decide
  refine ⟨gateAlerts_stored _, gateAlerts_asked _, fun h => ?_⟩
  have hsep := (@detect_returned_iff servingApp rfl _ _ _ hnul _ _ _ (1, gateAlert "gate:3") (gateAlerts_stored _)
    (gateAlerts_asked _)).mp h
  exact hsep.desc_colon (by decide)

end Perception.App
