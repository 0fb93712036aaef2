import Perception.App.AlertPaging
import Perception.App.FaceLibrary
import Perception.Cfg.IndexUnique

/-!
# The rows that a batch reads

`ReportResult` goes over a document with a `size_t` up to a length that is an `int`. The
events are the places `i` at which `doc[i]` is read; past the last row that is not defined.
-/
namespace Perception.App

set_option autoImplicit false

open Perception.Lib Perception.Cfg Perception.Db

def strAttriFaceIDCard : String := "ID_card"
def strAttriFaceIDName : String := "ID_name"
def strAttriFaceIDImg : String := "ID_img"
def strAttriWhiteName : String := "white_name"
def strAttriFaceInfo : String := "face_info"

/-- Conversion to `size_t`. -/
def sizeT (n : Int) : Nat := (n % 18446744073709551616).toNat

/-- The loop from place `i` on, where `doc` are the rows from there on. -/
def reportLoop {α : Type} (record : α → Json) (n : Nat) : Nat → List α → Traced Nat (List Json)
  | i, [] => if i < n then do .emit i; .halt else pure []
  | i, row :: doc =>
    if i < n then do
      .emit i
      let vecResult ← reportLoop record n (i + 1) doc
      pure (record row :: vecResult)
    else pure []

/-- The records of a document, as many as are asked for. -/
def reportRecords {α : Type} (record : α → Json) (s32BatchSize : Int) (doc : List α) : Traced Nat (List Json) :=
  let len := toInt doc.length
  let len := if len > s32BatchSize then s32BatchSize else len
  reportLoop record (sizeT len) 0 doc

/-- A document that was not read has no size. -/
def readRecords {α : Type} (record : α → Json) (s32BatchSize : Int) : Except Exn (List α) → Traced Nat (List Json)
  | .ok doc => reportRecords record s32BatchSize doc
  | .error _ => .halt

/-- `ReportResult` with the places that it reads. -/
def CommSafeDetect.ReportResultReads (s : CommSafeMng) (t : AutoTable DetectRow) (s32StartIdx s32BatchSize : Int) :
    Traced Nat (List Json) :=
  readRecords recordOf s32BatchSize (s.ReadDBTableData (t.rowsFrom s32StartIdx))

/-- A row of `FaceReportTable`. -/
structure FaceReportRow extends FaceReport where
  alert_date : String
  face_img : String

/-- A row with the one of its face in `FaceRegisteTable`. -/
structure FaceAlert where
  report : FaceReportRow
  face : FaceRow

/-- The columns behind the id. -/
def FaceAlert.columns (row : FaceAlert) : List (String × String) :=
  [(strAttriTaskFlag, row.report.task_flag), (strAttriAlgIdx, row.report.alg_idx),
    (strAttriAlertType, row.report.alert_type), (strAttriAlertDate, row.report.alert_date),
    (strAttriDataSrc, row.report.data_src), (strAttriIdx, row.report.face_id), (strAttriFaceIDImg, row.report.face_img),
    (strAttriFaceIDCard, row.face.ID_card), (strAttriFaceIDName, row.face.ID_name), (strAttriWhiteName, row.face.white_name)]

/-- The columns that go into the record itself, and the others, which tell of the face. -/
def faceCells (jRecord jFaceInfo : List (String × Json)) :
    List (String × String) → List (String × Json) × List (String × Json)
  | [] => (jRecord, jFaceInfo)
  | (strKey, strValue) :: cells =>
    if strKey.isEmpty then (jRecord, jFaceInfo)
    else if strKey = strAttriTaskFlag ∨ strKey = strAttriAlgIdx ∨ strKey = strAttriAlertType ∨
        strKey = strAttriAlertDate then
      faceCells (SortedMap.insert jRecord strKey (.string strValue)) jFaceInfo cells
    else if strKey = strAttriDataSrc then
      faceCells (SortedMap.insert jRecord strAttriDataSrc (dataSrcOf strValue)) jFaceInfo cells
    else faceCells jRecord (SortedMap.insert jFaceInfo strKey (.string strValue)) cells

/-- The record for a row; the id is the first column. -/
def faceRecordOf (row : Int × FaceAlert) : Json :=
  let (jRecord, jFaceInfo) := faceCells [(strAttriIdx, .string (toString row.1))] [] row.2.columns
  .object (SortedMap.insert jRecord strAttriFaceInfo (.object jFaceInfo))

/-- `a inner join b on a.face_id = b.id`; `eqv` is the comparison of a text with a number. -/
def innerJoin (eqv : String → Int → Bool) (a : List (Int × FaceReportRow)) (b : List (Int × FaceRow)) :
    List (Int × FaceAlert) :=
  a.flatMap fun report => (b.filter fun face => eqv report.2.face_id face.1).map fun face => (report.1, ⟨report.2, face.2⟩)

/-- The rows from a number on, each with the one of its face. -/
def CommSafeFace.ReportResult (eqv : String → Int → Bool) (s : CommSafeMng) (t : AutoTable FaceReportRow)
    (faces : AutoTable FaceRow) (s32StartIdx s32BatchSize : Int) : Traced Nat (List Json) :=
  readRecords faceRecordOf s32BatchSize (s.ReadDBTableData (innerJoin eqv (t.rowsFrom s32StartIdx) faces.rows))

/-- Only rows that are there are read, and no more of them than were asked for. -/
structure WithinRows {α : Type} (s32BatchSize : Int) (doc : List α) (x : Traced Nat (List Json)) : Prop where
  index_lt : ∀ i ∈ x.log, i < doc.length
  count_le : ∀ vecResult, x.val = some vecResult → (vecResult.length : Int) ≤ max 0 (min s32BatchSize doc.length)

section Loop

variable {α : Type} {record : α → Json} {n i : Nat} {doc : List α}

/-- A loop that ends before the rows do. -/
theorem reportLoop_of_le (h : n ≤ i + doc.length) :
    (reportLoop record n i doc).log = List.range' i (n - i) ∧
      (reportLoop record n i doc).val = some ((doc.take (n - i)).map record) := by
  induction doc generalizing i with
  | nil =>
    have hi : ¬i < n := by
      rw [List.length_nil] at h
      omega
    have hzero : n - i = 0 := by omega
    rw [reportLoop, if_neg hi, hzero]
    exact ⟨rfl, rfl⟩
  | cons row doc ih =>
    rw [List.length_cons] at h
    rw [reportLoop]
    by_cases hi : i < n
    · obtain ⟨hlog, hval⟩ := @ih (i + 1) (by omega)
      have hsucc : n - i = (n - (i + 1)) + 1 := by omega
      rw [if_pos hi, Traced.emit_bind, Traced.bind_of_some hval, hlog, hsucc, List.range'_succ, List.take_succ_cons,
        List.map_cons]
      exact ⟨congrArg (i :: ·) (List.append_nil _), rfl⟩
    · have hzero : n - i = 0 := by omega
      rw [if_neg hi, hzero]
      exact ⟨rfl, rfl⟩

/-- A loop that goes on behind the rows reads the place after the last, and does not return. -/
theorem reportLoop_of_lt (h : i + doc.length < n) :
    i + doc.length ∈ (reportLoop record n i doc).log ∧ (reportLoop record n i doc).val = none := by
  induction doc generalizing i with
  | nil =>
    rw [List.length_nil, Nat.add_zero] at h
    rw [reportLoop, if_pos h]
    exact ⟨List.mem_singleton_self i, rfl⟩
  | cons row doc ih =>
    rw [List.length_cons] at h ⊢
    obtain ⟨hlog, hval⟩ := @ih (i + 1) (by omega)
    have hplace : i + (doc.length + 1) = i + 1 + doc.length := by omega
    rw [reportLoop, if_pos (by omega), Traced.emit_bind, Traced.bind_of_none hval, hplace]
    exact ⟨List.mem_cons_of_mem i hlog, rfl⟩

end Loop

theorem toInt_int (n : Int) : -2147483648 ≤ toInt n ∧ toInt n ≤ 2147483647 := by
  have hlt : toInt n < 2147483648 := Int.bmod_lt (by decide)
  exact ⟨Int.le_bmod (by decide), Int.le_of_lt_add_one hlt⟩

theorem atoi_int (s : String) : -2147483648 ≤ atoi s ∧ atoi s ≤ 2147483647 := by
  have hle : ∀ x : Int, -2147483648 ≤ x.bmod 4294967296 := fun x => Int.le_bmod (by decide)
  exact ⟨hle _, atoi_le s⟩

/-- A length that stays a number of rows. -/
theorem toInt_le_of_nonneg {n : Nat} (h : 0 ≤ toInt n) : toInt n ≤ n := by
  by_cases hle : n ≤ 2147483647
  · exact Int.le_of_eq (toInt_of_le hle)
  · have hmax := (toInt_int n).2
    omega

theorem sizeT_of_nonneg {n : Int} (h : 0 ≤ n) (hmax : n ≤ 2147483647) : sizeT n = n.toNat := by
  rw [sizeT, Int.emod_eq_of_lt h (by omega)]

/-- A negative length is a very large one. -/
theorem sizeT_of_neg {n : Int} (h : n < 0) (hmin : -2147483648 ≤ n) : (sizeT n : Int) = 18446744073709551616 + n := by
  rw [sizeT]
  omega

theorem CommSafeMng.ReadDBTableData_eq_ok {α : Type} {s : CommSafeMng} {rows doc : List α}
    (h : s.ReadDBTableData rows = .ok doc) : rows = doc := by
  unfold ReadDBTableData at h
  split at h
  · exact Except.ok.inj h
  · cases h

section Records

variable {α : Type} {record : α → Json} {s32BatchSize : Int} {doc : List α}

/-- The number of rows that the loop is to go over. -/
def batchLen (s32BatchSize : Int) (doc : List α) : Int := min s32BatchSize (toInt doc.length)

theorem batchLen_eq_ite (s32BatchSize : Int) (doc : List α) :
    batchLen s32BatchSize doc = if s32BatchSize < toInt doc.length then s32BatchSize else toInt doc.length := by
  unfold batchLen
  split <;> omega

theorem reportRecords_eq : reportRecords record s32BatchSize doc = reportLoop record (sizeT (batchLen s32BatchSize doc)) 0 doc := by
  rw [batchLen_eq_ite]
  rfl

/-- With a length that is not negative the loop reads the first rows and returns their records. -/
theorem reportRecords_of_nonneg (h : 0 ≤ batchLen s32BatchSize doc) :
    (∀ i ∈ (reportRecords record s32BatchSize doc).log, i < doc.length) ∧
      (reportRecords record s32BatchSize doc).val = some ((doc.take (batchLen s32BatchSize doc).toNat).map record) := by
  have hlen : batchLen s32BatchSize doc ≤ toInt doc.length := Int.min_le_right _ _
  have hsize : toInt doc.length ≤ doc.length := toInt_le_of_nonneg (h.trans hlen)
  have hmax := (toInt_int doc.length).2
  have hle : (batchLen s32BatchSize doc).toNat ≤ 0 + doc.length := by omega
  have hcount : sizeT (batchLen s32BatchSize doc) = (batchLen s32BatchSize doc).toNat :=
    sizeT_of_nonneg h (by omega)
  obtain ⟨hlog, hval⟩ := @reportLoop_of_le _ record _ _ _ hle
  rw [reportRecords_eq, hcount, hlog, hval, Nat.sub_zero]
  refine ⟨fun i hi => ?_, rfl⟩
  have hrange := (List.mem_range'_1.mp hi).2
  omega

/-- The loop reads a place behind the rows, or returns as many records as it counts to. -/
theorem reportRecords_cases (record : α → Json) (s32BatchSize : Int) (doc : List α) :
    doc.length ∈ (reportRecords record s32BatchSize doc).log ∨
      ∃ vecResult, (reportRecords record s32BatchSize doc).val = some vecResult ∧
        vecResult.length = sizeT (batchLen s32BatchSize doc) := by
  rw [reportRecords_eq]
  by_cases hlt : doc.length < sizeT (batchLen s32BatchSize doc)
  · have hbehind : 0 + doc.length < sizeT (batchLen s32BatchSize doc) := (Nat.zero_add _).trans_lt hlt
    have hlog := (@reportLoop_of_lt _ record _ _ _ hbehind).1
    rw [Nat.zero_add] at hlog
    exact .inl hlog
  · have hwithin : sizeT (batchLen s32BatchSize doc) ≤ 0 + doc.length := (Nat.le_of_not_lt hlt).trans_eq (Nat.zero_add _).symm
    refine .inr ⟨_, (@reportLoop_of_le _ record _ _ _ hwithin).2, ?_⟩
    rw [List.length_map, List.length_take, Nat.sub_zero]
    exact Nat.min_eq_left (Nat.le_of_not_lt hlt)

theorem val_reportRecords (record : α → Json) (hmin : -2147483648 ≤ s32BatchSize) (hdoc : doc.length ≤ 4294967295) :
    (reportRecords record s32BatchSize doc).val =
      if batchLen s32BatchSize doc < 0 then none else some ((doc.take (batchLen s32BatchSize doc).toNat).map record) := by
  by_cases hneg : batchLen s32BatchSize doc < 0
  · have hlow : -2147483648 ≤ batchLen s32BatchSize doc := le_min hmin (toInt_int doc.length).1
    have hsize := sizeT_of_neg hneg hlow
    have hbehind : 0 + doc.length < sizeT (batchLen s32BatchSize doc) := by omega
    rw [if_pos hneg, reportRecords_eq]
    exact (reportLoop_of_lt hbehind).2
  · rw [if_neg hneg]
    exact (reportRecords_of_nonneg (Int.not_lt.mp hneg)).2

/-- A batch is the first rows, as many as are asked for. -/
theorem val_reportRecords_take (record : α → Json) (h : 0 ≤ s32BatchSize) (hsize : doc.length ≤ 2147483647) :
    (reportRecords record s32BatchSize doc).val = some ((doc.take s32BatchSize.toNat).map record) := by
  have hlen : batchLen s32BatchSize doc = min s32BatchSize doc.length := by rw [batchLen, toInt_of_le hsize]
  have hnonneg : 0 ≤ batchLen s32BatchSize doc := by omega
  rw [(reportRecords_of_nonneg hnonneg).2]
  by_cases hle : s32BatchSize ≤ doc.length
  · rw [hlen, Int.min_eq_left hle]
  · have hcut : doc.length ≤ (batchLen s32BatchSize doc).toNat := by omega
    have hall : doc.length ≤ s32BatchSize.toNat := by omega
    rw [List.take_of_length_le hcut, List.take_of_length_le hall]

/-- Every record is one of a row. -/
theorem exists_rows_of_val {vecResult : List Json} (h : (reportRecords record s32BatchSize doc).val = some vecResult) :
    ∃ rows : List α, (∀ row ∈ rows, row ∈ doc) ∧ vecResult = rows.map record := by
  rw [reportRecords_eq] at h
  by_cases hle : sizeT (batchLen s32BatchSize doc) ≤ 0 + doc.length
  · rw [(reportLoop_of_le hle).2] at h
    exact ⟨_, fun row hrow => List.mem_of_mem_take hrow, (Option.some.inj h).symm⟩
  · rw [(reportLoop_of_lt (Nat.lt_of_not_le hle)).2] at h
    cases h

theorem withinRows_reportRecords_iff (hmin : -2147483648 ≤ s32BatchSize) (hmax : s32BatchSize ≤ 2147483647) :
    WithinRows s32BatchSize doc (reportRecords record s32BatchSize doc) ↔ 0 ≤ s32BatchSize ∧ 0 ≤ toInt doc.length := by
  constructor
  · intro h
    by_contra hneg
    have hlen : batchLen s32BatchSize doc < 0 := by
      unfold batchLen
      omega
    have hsize := sizeT_of_neg hlen (le_min hmin (toInt_int doc.length).1)
    rcases reportRecords_cases record s32BatchSize doc with hlog | ⟨vecResult, hval, hmany⟩
    · exact absurd (h.index_lt _ hlog) (Nat.lt_irrefl _)
    · have hcount := h.count_le vecResult hval
      have hint := (toInt_int doc.length).1
      have hlow : batchLen s32BatchSize doc ≥ -2147483648 := le_min hmin hint
      rw [hmany, hsize] at hcount
      omega
  · intro ⟨hbatch, hdoc⟩
    have hlen : 0 ≤ batchLen s32BatchSize doc := le_min hbatch hdoc
    obtain ⟨hlog, hval⟩ := @reportRecords_of_nonneg _ record _ _ hlen
    refine ⟨hlog, fun vecResult hsome => ?_⟩
    cases Option.some.inj (hval.symm.trans hsome)
    have hle : batchLen s32BatchSize doc ≤ s32BatchSize := Int.min_le_left _ _
    rw [List.length_map, List.length_take]
    omega

/-- A document that was not read has no place to be read. -/
theorem withinRows_halt : WithinRows s32BatchSize doc .halt := ⟨nofun, nofun⟩

theorem withinRows_readRecords_iff (s : CommSafeMng) (hmin : -2147483648 ≤ s32BatchSize) (hmax : s32BatchSize ≤ 2147483647) :
    WithinRows s32BatchSize doc (readRecords record s32BatchSize (s.ReadDBTableData doc)) ↔
      (s.m_ptrMsgBus = true → 0 ≤ s32BatchSize ∧ 0 ≤ toInt doc.length) := by
  cases hbus : s.m_ptrMsgBus with
  | false =>
    have hread : s.ReadDBTableData doc = .error .undefined := by
      rw [CommSafeMng.ReadDBTableData, hbus]
      rfl
    rw [hread]
    exact iff_of_true withinRows_halt nofun
  | true =>
    have hread : s.ReadDBTableData doc = .ok doc := if_pos hbus
    rw [hread]
    exact (withinRows_reportRecords_iff hmin hmax).trans ⟨fun h _ => h, fun h => h rfl⟩

end Records

/-- What the loop returns is what `ReportResult` does, on a document of a size that it can have. -/
theorem CommSafeDetect.val_ReportResultReads (s : CommSafeMng) (t : AutoTable DetectRow) (obj : CommSafeDetect)
    {s32StartIdx s32BatchSize : Int} (hmin : -2147483648 ≤ s32BatchSize)
    (hdoc : (t.rowsFrom s32StartIdx).length ≤ 4294967295) :
    (ReportResultReads s t s32StartIdx s32BatchSize).val = (obj.ReportResult s t s32StartIdx s32BatchSize).toOption := by
  have hval := val_reportRecords recordOf hmin hdoc
  unfold ReportResultReads CommSafeDetect.ReportResult
  cases hread : s.ReadDBTableData (t.rowsFrom s32StartIdx) with
  | error e => rfl
  | ok doc =>
    obtain rfl : t.rowsFrom s32StartIdx = doc := s.ReadDBTableData_eq_ok hread
    rw [readRecords, hval, StateExcept.except_ok_bind]
    dsimp only
    rw [← batchLen_eq_ite]
    by_cases hneg : batchLen s32BatchSize (t.rowsFrom s32StartIdx) < 0
    · rw [if_pos hneg, if_pos hneg]
      rfl
    · rw [if_neg hneg, if_neg hneg]
      rfl

/-- Only rows that are there are read, and no more records than asked for returned, if and
only if the batch size is read as no negative number and the number of rows is none as an
`int`. Without the bus nothing is read. -/
theorem ReportResult_withinRows_iff (eqv : String → Int → Bool) (s : CommSafeMng) (t : AutoTable DetectRow)
    (reports : AutoTable FaceReportRow) (faces : AutoTable FaceRow) (strStartIdx strBatchSize : String) :
    (WithinRows (atoi strBatchSize) (t.rowsFrom (atoi strStartIdx))
        (CommSafeDetect.ReportResultReads s t (atoi strStartIdx) (atoi strBatchSize)) ↔
      (s.m_ptrMsgBus = true → 0 ≤ atoi strBatchSize ∧ 0 ≤ toInt (t.rowsFrom (atoi strStartIdx)).length)) ∧
    (WithinRows (atoi strBatchSize) (innerJoin eqv (reports.rowsFrom (atoi strStartIdx)) faces.rows)
        (CommSafeFace.ReportResult eqv s reports faces (atoi strStartIdx) (atoi strBatchSize)) ↔
      (s.m_ptrMsgBus = true → 0 ≤ atoi strBatchSize ∧
        0 ≤ toInt (innerJoin eqv (reports.rowsFrom (atoi strStartIdx)) faces.rows).length)) := by
  obtain ⟨hmin, hmax⟩ := atoi_int strBatchSize
  exact ⟨withinRows_readRecords_iff s hmin hmax, withinRows_readRecords_iff s hmin hmax⟩

/-- With the batch size -1 the first row is read where there is none. -/
theorem not_withinRows_negative :
    ¬ WithinRows (atoi "-1") ((AutoTable.empty 0 : AutoTable DetectRow).rowsFrom (atoi "1"))
        (CommSafeDetect.ReportResultReads servingApp (.empty 0) (atoi "1") (atoi "-1")) ∧
      ¬ WithinRows (atoi "-1") (innerJoin (fun _ _ => true) ((AutoTable.empty 0).rowsFrom (atoi "1")) [])
        (CommSafeFace.ReportResult (fun _ _ => true) servingApp (.empty 0) (.empty 0) (atoi "1") (atoi "-1")) := by
  constructor
  · intro h
    exact absurd (h.index_lt 0 (by decide +kernel)) (Nat.lt_irrefl 0)
  · intro h
    exact absurd (h.index_lt 0 (by decide +kernel)) (Nat.lt_irrefl 0)

end Perception.App
