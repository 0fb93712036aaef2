import Mathlib.Algebra.BigOperators.Intervals
import Perception.App.Report
import Perception.Cfg.Allocation

/-!
# A client pages through the alerts

The client asks for the number of the alerts, and then for batches, each from the number
after the last record of the batch before, until one has no record. All rows come, each
once, as long as the numbers fit an `int` on their way through the texts.
-/
namespace Perception.App

set_option autoImplicit false

open Perception.Lib Perception.Cfg Perception.Db StateExcept

/-- A detection task has been initialised, and the application is on the bus. -/
structure CommSafeMng.Serving (s : CommSafeMng) : Prop where
  bus : s.m_ptrMsgBus = true
  detect : s.m_mapDetectShrPtr ≠ []

theorem CommSafeMng.initTask_bus {s s' : CommSafeMng} {t : TaskCfg} (h : s.initTask t = .ok s') :
    s'.m_ptrMsgBus = s.m_ptrMsgBus := by
  obtain ⟨strAlgIdx, -, h⟩ := except_bind_eq_ok.mp h
  obtain ⟨strTaskIdx, -, h⟩ := except_bind_eq_ok.mp h
  split at h
  · obtain ⟨r, -, h⟩ := except_bind_eq_ok.mp h
    cases h
    rfl
  · cases h
    rfl

theorem CommSafeMng.foldlM_initTask_bus {lst : List TaskCfg} {s s' : CommSafeMng} (h : lst.foldlM initTask s = .ok s') :
    s'.m_ptrMsgBus = s.m_ptrMsgBus := by
  induction lst generalizing s with
  | nil =>
    cases h
    rfl
  | cons t lst ih =>
    rw [List.foldlM_cons] at h
    obtain ⟨s₁, h₁, h⟩ := except_bind_eq_ok.mp h
    exact (ih h).trans (initTask_bus h₁)

/-- An application that was initialised with a detection task serves. -/
theorem CommSafeMng.serving_of_InitParams {southCfg : Json} {lstTaskCfg : List TaskCfg} {s s' : CommSafeMng}
    (h : InitParams southCfg lstTaskCfg s = .ok s') (hne : s'.m_mapDetectShrPtr ≠ []) : s'.Serving := by
  obtain ⟨_, -, h⟩ := except_bind_eq_ok.mp h
  exact ⟨foldlM_initTask_bus h, hne⟩

/-- The body of a request, parsed. -/
def batchRequest (start batch : Nat) : Json :=
  .object [(strAttriBatchSize, .string (toString batch)), (strAttriStartIdx, .string (toString start))]

/-- The records of a reply. -/
def records (jRspData : Json) : List Json := (jRspData.get strAttriRecord).elems

/-- The requests of a client from a number on, with the batch sizes that it asks for, and
the records that it gets. -/
inductive Pages (s : CommSafeMng) (t : AutoTable DetectRow) : Nat → (Nat → Nat) → List Json → Prop
  | done {start : Nat} {b : Nat → Nat} {jRspData : Json}
      (reply : s.DetectReportBatch t (batchRequest start (b 0)) = .ok jRspData)
      (none : records jRspData = []) : Pages s t start b []
  | more {start end_idx : Nat} {b : Nat → Nat} {jRspData : Json} {rest : List Json}
      (reply : s.DetectReportBatch t (batchRequest start (b 0)) = .ok jRspData)
      (some : records jRspData ≠ []) (last : jRspData.attr strAttriEndIdx = .ok (toString end_idx))
      (next : Pages s t (end_idx + 1) (fun k => b (k + 1)) rest) : Pages s t start b (records jRspData ++ rest)

/-- What a client reads in a record is the row. -/
structure Shows (jRecord : Json) (row : Int × DetectRow) : Prop where
  idx : jRecord.attr strAttriIdx = .ok (toString row.1)
  text : ∀ k v, (k, v) ∈ row.2.columns → k ≠ strAttriDataSrc → jRecord.attr k = .ok v
  data_src : ∃ strTransferId strDesc, (jRecord.get strAttriDataSrc).attr strAttriTransferId = .ok strTransferId ∧
    (jRecord.get strAttriDataSrc).attr strAttriDesc = .ok strDesc ∧ row.2.data_src = strTransferId ++ ":" ++ strDesc

/-- From the first number that it is told the client gets all rows, in their order and each
once, and as many as it is told. -/
def AllPaged (s : CommSafeMng) (t : AutoTable DetectRow) (b : Nat → Nat) : Prop :=
  ∃ (jRspData : Json) (start : Nat) (recs : List Json), s.DetectReportInfo t = .ok jRspData ∧
    jRspData.attr strAttriStartIdx = .ok (toString start) ∧ Pages s t start b recs ∧
      List.Forall₂ Shows recs t.rows ∧ jRspData.attr strAttriTotalSize = .ok (toString t.rows.length)

/-- A text of two parts, with one colon between them. -/
def TwoParts (v : String) : Prop :=
  ∃ x y : List Char, v.toList = x ++ ':' :: y ∧ x ≠ [] ∧ y ≠ [] ∧ ':' ∉ x ∧ ':' ∉ y ∧ NulFree v.toList

/-- A row has the largest number that an `int` holds. -/
def HasLargest (t : AutoTable DetectRow) : Prop := ∃ r ∈ t.rows, r.1 = 2147483647

/-- The batch size that the text of a number is taken for. -/
def asked (b : Nat → Nat) (k : Nat) : Int := atoi (toString (b k))

/-- Batches of sizes from 1 on cover `n` rows, and the request behind the last row has a size
that is not negative, nor positive if the number it starts from is none. -/
def Covers (past : Prop) (n : Int) (a : Nat → Int) : Prop :=
  ∃ N, (∀ k < N, 1 ≤ a k ∧ ∑ j ∈ Finset.range k, a j < n) ∧ n ≤ ∑ j ∈ Finset.range N, a j ∧
    0 ≤ a N ∧ (past → a N = 0)

theorem covers_of_nonpos {past : Prop} {n : Int} (h : n ≤ 0) (a : Nat → Int) :
    Covers past n a ↔ 0 ≤ a 0 ∧ (past → a 0 = 0) := by
  constructor
  · rintro ⟨N, hpages, -, hlast⟩
    cases N with
    | zero => exact hlast
    | succ N =>
      have hfirst := (hpages 0 (Nat.succ_pos N)).2
      rw [Finset.range_zero, Finset.sum_empty] at hfirst
      omega
  · intro hlast
    refine ⟨0, nofun, ?_, hlast⟩
    rw [Finset.range_zero, Finset.sum_empty]
    exact h

theorem covers_of_pos {past : Prop} {n : Int} (h : 0 < n) (a : Nat → Int) :
    Covers past n a ↔ 1 ≤ a 0 ∧ Covers past (n - a 0) (fun k => a (k + 1)) := by
  constructor
  · rintro ⟨N, hpages, hcover, hlast⟩
    cases N with
    | zero =>
      rw [Finset.range_zero, Finset.sum_empty] at hcover
      omega
    | succ N =>
      refine ⟨(hpages 0 (Nat.succ_pos N)).1, N, fun k hk => ⟨?_, ?_⟩, ?_, hlast⟩
      · exact (hpages (k + 1) (Nat.succ_lt_succ hk)).1
      · have hsum := (hpages (k + 1) (Nat.succ_lt_succ hk)).2
        rw [Finset.sum_range_succ'] at hsum
        exact lt_sub_iff_add_lt.mpr hsum
      · rw [Finset.sum_range_succ'] at hcover
        exact sub_le_iff_le_add.mpr hcover
  · rintro ⟨hfirst, N, hpages, hcover, hlast⟩
    refine ⟨N + 1, fun k hk => ?_, ?_, hlast⟩
    · cases k with
      | zero =>
        rw [Finset.range_zero, Finset.sum_empty]
        exact ⟨hfirst, h⟩
      | succ k =>
        obtain ⟨hone, hsum⟩ := hpages k (Nat.lt_of_succ_lt_succ hk)
        rw [Finset.sum_range_succ']
        exact ⟨hone, lt_sub_iff_add_lt.mp hsum⟩
    · rw [Finset.sum_range_succ']
      exact sub_le_iff_le_add.mp hcover

theorem toString_nat_injective {m n : Nat} (h : toString m = toString n) : m = n := by
  have hchars : ∀ k : Nat, (toString k).toList = Nat.toDigits 10 k := fun _ => Nat.toList_repr
  have hdigits := congrArg String.toList h
  rw [hchars, hchars] at hdigits
  rw [← Nat.ofDigitChars_ten_toDigits (n := m), hdigits, Nat.ofDigitChars_ten_toDigits]

theorem toList_toString_negSucc (k : Nat) : (toString (Int.negSucc k)).toList = '-' :: (toString (k + 1)).toList := by
  have hminus : toString (Int.negSucc k) = "-" ++ toString (k + 1) := rfl
  rw [hminus, String.toList_append]
  rfl

theorem toString_int_injective {m n : Int} (h : toString m = toString n) : m = n := by
  have hminus : ∀ k l : Nat, (toString k).toList ≠ '-' :: (toString l).toList := by
    intro k l heq
    have hmem : '-' ∈ (toString k).toList := heq ▸ List.mem_cons_self
    have hdigits : (toString k).toList = Nat.toDigits 10 k := Nat.toList_repr
    rw [hdigits] at hmem
    exact absurd (Nat.isDigit_of_mem_toDigits (by decide) (by decide) hmem) (by decide)
  have hchars := congrArg String.toList h
  cases m with
  | ofNat k =>
    cases n with
    | ofNat l => exact congrArg Nat.cast (toString_nat_injective h)
    | negSucc l =>
      rw [toList_toString_negSucc] at hchars
      exact absurd hchars (hminus k (l + 1))
  | negSucc k =>
    cases n with
    | ofNat l =>
      rw [toList_toString_negSucc] at hchars
      exact absurd hchars.symm (hminus l (k + 1))
    | negSucc l =>
      rw [toList_toString_negSucc, toList_toString_negSucc] at hchars
      have hsucc := toString_nat_injective (String.toList_inj.mp (List.cons.inj hchars).2)
      cases hsucc
      rfl

@[simp] theorem batchRequest_start (start batch : Nat) :
    (batchRequest start batch).attr strAttriStartIdx = .ok (toString start) := Json.attr_eq_ok.mpr rfl

@[simp] theorem batchRequest_size (start batch : Nat) :
    (batchRequest start batch).attr strAttriBatchSize = .ok (toString batch) := Json.attr_eq_ok.mpr rfl

@[simp] theorem records_null : records .null = [] := rfl

@[simp] theorem records_batchReply (first last : String) (vecResult : List Json) :
    records (batchReply first last vecResult) = vecResult := Json.elems_array vecResult

theorem batchReply_end (first last : String) (vecResult : List Json) :
    (batchReply first last vecResult).attr strAttriEndIdx = .ok last := Json.attr_eq_ok.mpr rfl

theorem toInt_of_le {n : Nat} (h : n ≤ 2147483647) : toInt n = n :=
  Int.bmod_eq_of_le (by omega) (by omega)

/-- The first `a` of the rows from a number on. -/
def batchRows (t : AutoTable DetectRow) (start a : Int) : List (Int × DetectRow) := (t.rowsFrom start).take a.toNat

theorem CommSafeMng.Serving.first_task {s : CommSafeMng} (hs : s.Serving) :
    ∃ k obj m, s.m_mapDetectShrPtr = (k, obj) :: m := by
  cases hmap : s.m_mapDetectShrPtr with
  | nil => exact absurd hmap hs.detect
  | cons e m => exact ⟨e.1, e.2, m, rfl⟩

theorem ReportResult_eq {s : CommSafeMng} (hbus : s.m_ptrMsgBus = true) {t : AutoTable DetectRow}
    (hfit : t.rows.length ≤ 2147483647) (obj : CommSafeDetect) (start a : Int) :
    obj.ReportResult s t start a = if a < 0 then .error .undefined else .ok ((batchRows t start a).map recordOf) := by
  have hle : (t.rowsFrom start).length ≤ 2147483647 := (List.length_filter_le _ _).trans hfit
  have hdoc : s.ReadDBTableData (t.rowsFrom start) = .ok (t.rowsFrom start) := if_pos hbus
  have hlen := toInt_of_le hle
  rw [CommSafeDetect.ReportResult, hdoc, except_ok_bind]
  simp only [hlen]
  by_cases hneg : a < 0
  · have hlt : a < ((t.rowsFrom start).length : Int) := by omega
    rw [if_pos hneg, if_pos hlt, if_pos hneg]
  · rw [if_neg hneg]
    by_cases hlt : a < ((t.rowsFrom start).length : Int)
    · rw [if_pos hlt, if_neg hneg]
      rfl
    · rw [if_neg hlt, if_neg (by omega), Int.toNat_natCast, batchRows, List.take_of_length_le (Nat.le_refl _),
        List.take_of_length_le (by omega)]
      rfl

/-- Every record of a batch is there at its place. -/
theorem index_map {xs : List (Int × DetectRow)} {i : Int} {row : Int × DetectRow} (h₀ : 0 ≤ i)
    (h : xs[i.toNat]? = some row) : index (xs.map recordOf) i = .ok (recordOf row) := by
  rw [index, if_pos h₀, List.getElem?_map, h]
  rfl

/-- A request for `a` rows: a negative size is not answered, a batch without a row has no
record, and any other batch ends with the number of its last row. -/
theorem DetectReportBatch_eq {s : CommSafeMng} (hs : s.Serving) {t : AutoTable DetectRow}
    (hfit : t.rows.length ≤ 2147483647) (start batch : Nat) :
    s.DetectReportBatch t (batchRequest start batch) =
      let a := atoi (toString batch)
      let rows := batchRows t (atoi (toString start)) a
      if a < 0 then .error .undefined
      else match rows.head?, rows.getLast? with
        | some first, some last => .ok (batchReply (toString first.1) (toString last.1) (rows.map recordOf))
        | _, _ => .ok .null := by
  obtain ⟨k, obj, m, hm⟩ := hs.first_task
  rw [CommSafeMng.DetectReportBatch, hm, ReportBatch, batchRequest_start, batchRequest_size]
  simp only [except_ok_bind]
  rw [ReportResult_eq hs.bus hfit]
  by_cases hneg : atoi (toString batch) < 0
  · rw [if_pos hneg, if_pos hneg]
    rfl
  · rw [if_neg hneg, if_neg hneg, except_ok_bind]
    generalize hrows : batchRows t (atoi (toString start)) (atoi (toString batch)) = rows
    have hle : rows.length ≤ 2147483647 := by
      rw [← hrows]
      exact ((List.length_take_le' _ _).trans (List.length_filter_le _ _)).trans hfit
    have hcount : toInt (rows.map recordOf).length = rows.length := by
      rw [List.length_map]
      exact toInt_of_le hle
    cases rows with
    | nil => rfl
    | cons first rows =>
      have hlast : (first :: rows).getLast? = some ((first :: rows).getLast (List.cons_ne_nil _ _)) :=
        List.getLast?_eq_some_getLast _
      have hne : ((first :: rows).length : Int) ≠ 0 := by
        rw [List.length_cons]
        omega
      have hidx : (((first :: rows).length : Int) - 1).toNat = (first :: rows).length - 1 := by omega
      have hget : (first :: rows)[(((first :: rows).length : Int) - 1).toNat]? =
          some ((first :: rows).getLast (List.cons_ne_nil _ _)) := by
        rw [hidx, ← List.getLast?_eq_getElem?, hlast]
      have hhead : (first :: rows)[(0 : Int).toNat]? = some first := rfl
      rw [hcount, if_neg hne, index_map (Int.le_refl 0) hhead, except_ok_bind, recordOf_idx, except_ok_bind,
        index_map (by omega) hget, except_ok_bind, recordOf_idx, except_ok_bind, hlast]
      rfl

/-- What an answered request says. -/
structure Answer (rows : List (Int × DetectRow)) (jRspData : Json) : Prop where
  records_eq : records jRspData = rows.map recordOf
  end_eq : ∀ last, rows.getLast? = some last → jRspData.attr strAttriEndIdx = .ok (toString last.1)

theorem answer_of_reply {s : CommSafeMng} (hs : s.Serving) {t : AutoTable DetectRow}
    (hfit : t.rows.length ≤ 2147483647) {start batch : Nat} {jRspData : Json}
    (h : s.DetectReportBatch t (batchRequest start batch) = .ok jRspData) :
    0 ≤ atoi (toString batch) ∧
      Answer (batchRows t (atoi (toString start)) (atoi (toString batch))) jRspData := by
  rw [DetectReportBatch_eq hs hfit] at h
  simp only at h
  by_cases hneg : atoi (toString batch) < 0
  · rw [if_pos hneg] at h
    cases h
  · rw [if_neg hneg] at h
    refine ⟨by omega, ?_⟩
    generalize batchRows t (atoi (toString start)) (atoi (toString batch)) = rows at h ⊢
    cases rows with
    | nil =>
      cases h
      exact ⟨rfl, nofun⟩
    | cons first rows =>
      have hlast : (first :: rows).getLast? = some ((first :: rows).getLast (List.cons_ne_nil _ _)) :=
        List.getLast?_eq_some_getLast _
      rw [List.head?_cons, hlast] at h
      cases h
      refine ⟨records_batchReply _ _ _, fun last hl => ?_⟩
      rw [hlast] at hl
      cases hl
      exact batchReply_end _ _ _

theorem exists_reply {s : CommSafeMng} (hs : s.Serving) {t : AutoTable DetectRow}
    (hfit : t.rows.length ≤ 2147483647) (start : Nat) {batch : Nat} (h : 0 ≤ atoi (toString batch)) :
    ∃ jRspData, s.DetectReportBatch t (batchRequest start batch) = .ok jRspData := by
  rw [DetectReportBatch_eq hs hfit]
  simp only
  rw [if_neg (by omega)]
  split
  · exact ⟨_, rfl⟩
  · exact ⟨_, rfl⟩

/-- The client stops where a request gets no row. -/
theorem pages_nil_iff {s : CommSafeMng} (hs : s.Serving) {t : AutoTable DetectRow}
    (hfit : t.rows.length ≤ 2147483647) (start : Nat) (b : Nat → Nat) :
    Pages s t start b [] ↔ 0 ≤ asked b 0 ∧ batchRows t (atoi (toString start)) (asked b 0) = [] := by
  constructor
  · intro h
    generalize hrecs : ([] : List Json) = recs at h
    cases h with
    | done reply hnone =>
      obtain ⟨ha, hans⟩ := answer_of_reply hs hfit reply
      rw [hans.records_eq] at hnone
      exact ⟨ha, List.map_eq_nil_iff.mp hnone⟩
    | more reply hsome last next =>
      exact absurd (List.append_eq_nil_iff.mp hrecs.symm).1 hsome
  · rintro ⟨ha, hrows⟩
    obtain ⟨jRspData, reply⟩ := exists_reply hs hfit start ha
    have hans := (answer_of_reply hs hfit reply).2
    refine .done reply ?_
    rw [hans.records_eq]
    exact List.map_eq_nil_iff.mpr hrows

/-- Behind a batch with a row the client goes on after its last. -/
theorem pages_append_iff {s : CommSafeMng} (hs : s.Serving) {t : AutoTable DetectRow}
    (hfit : t.rows.length ≤ 2147483647) {start : Nat} {b : Nat → Nat} {last : Nat} {row : DetectRow} {rest : List Json}
    (hlast : (batchRows t (atoi (toString start)) (asked b 0)).getLast? = some ((last : Int), row)) :
    Pages s t start b ((batchRows t (atoi (toString start)) (asked b 0)).map recordOf ++ rest) ↔
      0 ≤ asked b 0 ∧ Pages s t (last + 1) (fun k => b (k + 1)) rest := by
  have hne : (batchRows t (atoi (toString start)) (asked b 0)).map recordOf ≠ [] := by
    intro h
    rw [List.map_eq_nil_iff.mp h] at hlast
    cases hlast
  constructor
  · intro h
    generalize hrecs : (batchRows t (atoi (toString start)) (asked b 0)).map recordOf ++ rest = recs at h
    cases h with
    | done reply hnone => exact absurd (List.append_eq_nil_iff.mp hrecs).1 hne
    | more reply hsome hend next =>
      obtain ⟨ha, hans⟩ := answer_of_reply hs hfit reply
      rw [hans.records_eq] at hrecs
      have heq := (hans.end_eq _ hlast).symm.trans hend
      cases toString_nat_injective (Except.ok.inj heq)
      cases List.append_cancel_left hrecs
      exact ⟨ha, next⟩
  · rintro ⟨ha, next⟩
    obtain ⟨jRspData, reply⟩ := exists_reply hs hfit start ha
    have hans := (answer_of_reply hs hfit reply).2
    have hrec := hans.records_eq
    rw [← asked.eq_def] at hrec
    rw [← hrec] at hne ⊢
    exact .more reply hne (hans.end_eq _ hlast) next

/-- Behind the largest number the client starts from a text that is read as the smallest. -/
theorem batchRows_nil_iff {t : AutoTable DetectRow} {start : Nat}
    (hstart : start ≤ 2147483648) (hnone : t.rowsFrom start = []) (hpast : start = 2147483648 ↔ HasLargest t)
    (a : Int) (ha : 0 ≤ a) :
    batchRows t (atoi (toString start)) a = [] ↔ (HasLargest t → a = 0) := by
  by_cases hlarge : HasLargest t
  · have hnum : atoi (toString start) = -2147483648 := by
      rw [hpast.mpr hlarge, atoi_toString_nat]
      decide
    have hall : t.rowsFrom (-2147483648) = t.rows := by
      refine AutoTable.rowsFrom_eq_rows fun r hr => ?_
      have := (t.bounded r hr).1
      omega
    have hne : t.rows ≠ [] := by
      obtain ⟨r, hr, -⟩ := hlarge
      exact List.ne_nil_of_mem hr
    rw [batchRows, hnum, hall, List.take_eq_nil_iff]
    constructor
    · rintro (h | h) -
      · omega
      · exact absurd h hne
    · intro h
      exact .inl (by rw [h hlarge]; rfl)
  · have hne : start ≠ 2147483648 := fun h => hlarge (hpast.mp h)
    have hnum : atoi (toString start) = start := atoi_toString_of_le (by omega)
    rw [batchRows, hnum, hnone, List.take_nil]
    exact ⟨fun _ h => absurd h hlarge, fun _ => rfl⟩

theorem covers_drop {past : Prop} {α : Type} (xs : List α) {k : Int} (hk : 0 ≤ k) (a : Nat → Int) :
    Covers past ((xs.drop k.toNat).length : Int) a ↔ Covers past (xs.length - k) a := by
  rw [List.length_drop]
  by_cases hle : k ≤ xs.length
  · have hcast : ((xs.length - k.toNat : Nat) : Int) = xs.length - k := by omega
    rw [hcast]
  · rw [covers_of_nonpos (by omega), covers_of_nonpos (by omega)]

theorem pages_end_iff {s : CommSafeMng} (hs : s.Serving) {t : AutoTable DetectRow}
    (hmax : ∀ r ∈ t.rows, r.1 ≤ 2147483647) {start : Nat} (hstart : start ≤ 2147483648) (hnone : t.rowsFrom start = [])
    (hpast : start = 2147483648 ↔ HasLargest t) (b : Nat → Nat) :
    Pages s t start b [] ↔ Covers (HasLargest t) 0 (asked b) := by
  rw [pages_nil_iff hs (AutoTable.length_rows_le hmax), covers_of_nonpos (Int.le_refl 0)]
  exact and_congr_right fun ha => batchRows_nil_iff hstart hnone hpast _ ha

/-- A batch without a row ends a run that has rows left. -/
theorem one_le_asked_of_pages {s : CommSafeMng} (hs : s.Serving) {t : AutoTable DetectRow}
    (hfit : t.rows.length ≤ 2147483647) {start : Nat} {b : Nat → Nat} {recs : List Json} (hne : recs ≠ [])
    (h : Pages s t start b recs) : 1 ≤ asked b 0 := by
  cases h with
  | done reply hnone => exact absurd rfl hne
  | more reply hsome hend next =>
    have hans := (answer_of_reply hs hfit reply).2
    by_contra hlt
    have hzero : (atoi (toString (b 0))).toNat = 0 := by
      have hasked : asked b 0 = atoi (toString (b 0)) := rfl
      omega
    rw [hans.records_eq, batchRows, hzero, List.take_zero, List.map_nil] at hsome
    exact absurd rfl hsome

/-- Where no row is left, the number of the last one decides what the next text is read as. -/
theorem hasLargest_iff_of_last {t : AutoTable DetectRow} (hmax : ∀ r ∈ t.rows, r.1 ≤ 2147483647) {k : Nat}
    {row : DetectRow} (hrow : ((k : Int), row) ∈ t.rows) (hend : t.rowsFrom ((k + 1 : Nat) : Int) = []) :
    k + 1 = 2147483648 ↔ HasLargest t := by
  constructor
  · intro hlarge
    refine ⟨_, hrow, ?_⟩
    show (k : Int) = 2147483647
    omega
  · rintro ⟨r, hr, hr'⟩
    have hk := hmax _ hrow
    by_contra hsmall
    have hin : r ∈ t.rowsFrom ((k + 1 : Nat) : Int) := by
      refine List.mem_filter.mpr ⟨hr, decide_eq_true ?_⟩
      simp only at hk
      omega
    rw [hend] at hin
    cases hin

/-- A batch for at least one row ends with the number of a row. -/
theorem exists_last_of_take {t : AutoTable DetectRow} {start : Nat} (hnil : t.rowsFrom start ≠ []) {a : Int} (ha : 1 ≤ a) :
    ∃ (k : Nat) (row : DetectRow), ((t.rowsFrom start).take a.toNat).getLast? = some ((k : Int), row) ∧
      ((k : Int), row) ∈ t.rows := by
  have htake : (t.rowsFrom start).take a.toNat ≠ [] := by
    rw [Ne, List.take_eq_nil_iff, not_or]
    exact ⟨by omega, hnil⟩
  have hlast := List.getLast?_eq_some_getLast htake
  generalize ((t.rowsFrom start).take a.toNat).getLast htake = last at hlast
  have hmem : last ∈ t.rows := AutoTable.mem_rows_of_mem_rowsFrom (List.mem_of_mem_take (List.mem_of_getLast? hlast))
  obtain ⟨lastId, row⟩ := last
  obtain ⟨k, rfl⟩ : ∃ k : Nat, lastId = k := Int.eq_ofNat_of_zero_le (Int.le_of_lt (t.bounded _ hmem).1)
  exact ⟨k, row, hlast, hmem⟩

/-- The induction over the batches: the client gets the rows from a number on, if and only
if the sizes cover them. -/
theorem pages_iff {s : CommSafeMng} (hs : s.Serving) {t : AutoTable DetectRow} (hmax : ∀ r ∈ t.rows, r.1 ≤ 2147483647)
    (n : Nat) {start : Nat} (hn : (t.rowsFrom start).length ≤ n) (hstart : start ≤ 2147483648)
    (hpast : t.rowsFrom start = [] → (start = 2147483648 ↔ HasLargest t)) (b : Nat → Nat) :
    Pages s t start b ((t.rowsFrom start).map recordOf) ↔
      Covers (HasLargest t) (t.rowsFrom start).length (asked b) := by
  have hfit : t.rows.length ≤ 2147483647 := AutoTable.length_rows_le hmax
  induction n generalizing start b with
  | zero =>
    have hnil : t.rowsFrom start = [] := List.length_eq_zero_iff.mp (Nat.le_zero.mp hn)
    rw [hnil]
    exact pages_end_iff hs hmax hstart hnil (hpast hnil) b
  | succ n ih =>
    by_cases hnil : t.rowsFrom start = []
    · rw [hnil]
      exact pages_end_iff hs hmax hstart hnil (hpast hnil) b
    · obtain ⟨r₀, hr₀⟩ := List.exists_mem_of_ne_nil _ hnil
      have hle₀ := AutoTable.le_of_mem_rowsFrom hr₀
      have hmax₀ := hmax r₀ (AutoTable.mem_rows_of_mem_rowsFrom hr₀)
      have hnum : atoi (toString start) = start := atoi_toString_of_le (by omega)
      have hpos : 0 < (t.rowsFrom start).length := List.length_pos_iff.mpr hnil
      have hne : (t.rowsFrom start).map recordOf ≠ [] := fun h => hnil (List.map_eq_nil_iff.mp h)
      rw [covers_of_pos (by omega)]
      by_cases ha : 1 ≤ asked b 0
      · have hbatch : batchRows t (atoi (toString start)) (asked b 0) = (t.rowsFrom start).take (asked b 0).toNat := by
          rw [batchRows, hnum]
        obtain ⟨k, row, hlast, hmem⟩ := exists_last_of_take hnil ha
        have hidmax : (k : Int) ≤ 2147483647 := hmax _ hmem
        have hrest : t.rowsFrom ((k + 1 : Nat) : Int) = (t.rowsFrom start).drop (asked b 0).toNat :=
          AutoTable.rowsFrom_succ_last hlast
        have hlen : (t.rowsFrom ((k + 1 : Nat) : Int)).length ≤ n := by
          rw [hrest, List.length_drop]
          omega
        have hstep : Pages s t (k + 1) (fun k => b (k + 1)) ((t.rowsFrom ((k + 1 : Nat) : Int)).map recordOf) ↔
            Covers (HasLargest t) (t.rowsFrom ((k + 1 : Nat) : Int)).length (asked fun k => b (k + 1)) :=
          ih hlen (by omega) (hasLargest_iff_of_last hmax hmem) _
        have hsplit : (t.rowsFrom start).map recordOf =
            (batchRows t (atoi (toString start)) (asked b 0)).map recordOf ++
              (t.rowsFrom ((k + 1 : Nat) : Int)).map recordOf := by
          rw [hbatch, hrest, ← List.map_append, List.take_append_drop]
        rw [← hbatch] at hlast
        rw [hsplit, pages_append_iff hs hfit hlast, hstep, hrest, covers_drop _ (by omega)]
        exact ⟨fun h => ⟨ha, h.2⟩, fun h => ⟨by omega, h.2⟩⟩
      · exact ⟨fun h => absurd (one_le_asked_of_pages hs hfit hne h) ha, fun h => absurd h.1 ha⟩

/-- Every record is one of a row. -/
theorem rows_of_pages {s : CommSafeMng} (hs : s.Serving) {t : AutoTable DetectRow}
    (hfit : t.rows.length ≤ 2147483647) {start : Nat} {b : Nat → Nat} {recs : List Json} (h : Pages s t start b recs) :
    ∃ rows : List (Int × DetectRow), (∀ r ∈ rows, r ∈ t.rows) ∧ recs = rows.map recordOf := by
  induction h with
  | done reply hnone => exact ⟨[], nofun, rfl⟩
  | @more start _ b _ _ reply hsome hend next ih =>
    obtain ⟨rest, hrest, rfl⟩ := ih
    have hans := (answer_of_reply hs hfit reply).2
    refine ⟨batchRows t (atoi (toString start)) (atoi (toString (b 0))) ++ rest, fun r hr => ?_, ?_⟩
    · rcases List.mem_append.mp hr with hr | hr
      · exact AutoTable.mem_rows_of_mem_rowsFrom (List.mem_of_mem_take hr)
      · exact hrest r hr
    · rw [hans.records_eq, List.map_append]

/-- The two parts of a data source are shown where its text has two tokens. -/
theorem dataSrcOf_attr_iff (v strTransferId strDesc : String) :
    (dataSrcOf v).attr strAttriTransferId = .ok strTransferId ∧ (dataSrcOf v).attr strAttriDesc = .ok strDesc ↔
      Strtok v.toList ':' = [strTransferId.toList, strDesc.toList] := by
  constructor
  · intro ⟨hid, hdesc⟩
    cases hparts : Strtok v.toList ':' with
    | nil =>
      rw [dataSrcOf, hparts] at hid
      cases hid
    | cons x tail =>
      cases tail with
      | nil =>
        rw [dataSrcOf, hparts] at hid
        cases hid
      | cons y tail =>
        cases tail with
        | cons z tail =>
          rw [dataSrcOf, hparts] at hid
          cases hid
        | nil =>
          rw [dataSrcOf, hparts] at hid hdesc
          cases Except.ok.inj hid
          cases Except.ok.inj hdesc
          rw [String.toList_ofList, String.toList_ofList]
  · intro hparts
    rw [dataSrcOf, hparts]
    simp only [String.ofList_toList]
    exact ⟨rfl, rfl⟩

/-- The two parts of a data source are told apart only where there are two. -/
theorem twoParts_iff (v : String) :
    (∃ strTransferId strDesc, (dataSrcOf v).attr strAttriTransferId = .ok strTransferId ∧
      (dataSrcOf v).attr strAttriDesc = .ok strDesc ∧ v = strTransferId ++ ":" ++ strDesc) ↔ TwoParts v := by
  constructor
  · intro ⟨strTransferId, strDesc, hid, hdesc, hv⟩
    have hparts := (dataSrcOf_attr_iff v strTransferId strDesc).mp ⟨hid, hdesc⟩
    obtain ⟨hx, hcx, hnx, -⟩ := mem_Strtok (hparts ▸ List.mem_cons_self : strTransferId.toList ∈ Strtok v.toList ':')
    obtain ⟨hy, hcy, hny, -⟩ :=
      mem_Strtok (hparts ▸ List.mem_cons_of_mem _ List.mem_cons_self : strDesc.toList ∈ Strtok v.toList ':')
    have hchars : v.toList = strTransferId.toList ++ ':' :: strDesc.toList := by
      rw [hv]
      simp
    refine ⟨strTransferId.toList, strDesc.toList, hchars, hx, hy, hcx, hcy, ?_⟩
    rw [hchars]
    intro hmem
    rcases List.mem_append.mp hmem with hmem | hmem
    · exact hnx hmem
    · rcases List.mem_cons.mp hmem with hmem | hmem
      · exact absurd hmem (by decide)
      · exact hny hmem
  · intro ⟨x, y, hchars, hx, hy, hcx, hcy, hnul⟩
    have hparts : Strtok v.toList ':' = [(String.ofList x).toList, (String.ofList y).toList] := by
      rw [String.toList_ofList, String.toList_ofList, Strtok_of_nulFree hnul, hchars, strtok_append_cons,
        strtok_of_not_mem hcx hx, strtok_of_not_mem hcy hy]
      rfl
    obtain ⟨hid, hdesc⟩ := (dataSrcOf_attr_iff v (String.ofList x) (String.ofList y)).mpr hparts
    refine ⟨String.ofList x, String.ofList y, hid, hdesc, ?_⟩
    rw [← String.toList_inj, hchars]
    simp

theorem shows_recordOf_iff (row : Int × DetectRow) : Shows (recordOf row) row ↔ TwoParts row.2.data_src := by
  rw [← twoParts_iff, ← recordOf_data_src]
  constructor
  · intro h
    exact h.data_src
  · intro h
    refine ⟨recordOf_idx row, fun k v hkv hne => ?_, h⟩
    rw [Json.attr_eq_ok, find?_recordOf hkv, if_neg hne]

/-- A record shows a row of the table only if it is the one of that row. -/
theorem eq_of_shows {t : AutoTable DetectRow} {r r' : Int × DetectRow} (hr : r ∈ t.rows) (hr' : r' ∈ t.rows)
    (h : Shows (recordOf r) r') : r = r' := by
  have hidx := Except.ok.inj ((recordOf_idx r).symm.trans h.idx)
  exact AutoTable.eq_of_number_eq hr hr' (toString_int_injective hidx)

theorem forall₂_shows_iff {t : AutoTable DetectRow} {rows : List (Int × DetectRow)} (hrows : ∀ r ∈ rows, r ∈ t.rows) :
    List.Forall₂ Shows (rows.map recordOf) t.rows ↔ rows = t.rows ∧ ∀ r ∈ t.rows, TwoParts r.2.data_src := by
  rw [List.forall₂_map_left_iff]
  constructor
  · intro h
    have heq : rows = t.rows := by
      refine List.forall₂_eq_eq_eq ▸ ?_
      refine (List.forall₂_iff_zip.mpr ⟨h.length_eq, fun {r r'} hz => ?_⟩ : List.Forall₂ (· = ·) rows t.rows)
      obtain ⟨hr, hr'⟩ := List.of_mem_zip hz
      exact eq_of_shows (hrows r hr) hr' (List.forall₂_iff_zip.mp h |>.2 hz)
    refine ⟨heq, ?_⟩
    rw [heq, List.forall₂_same] at h
    exact fun r hr => (shows_recordOf_iff r).mp (h r hr)
  · rintro ⟨rfl, hparts⟩
    rw [List.forall₂_same]
    exact fun r hr => (shows_recordOf_iff r).mpr (hparts r hr)

theorem DetectReportInfo_eq {s : CommSafeMng} (hs : s.Serving) {t : AutoTable DetectRow} {first last : Int × DetectRow}
    (hmax : ∀ r ∈ t.rows, r.1 ≤ 2147483647) (hfirst : t.rows.head? = some first) (hlast : t.rows.getLast? = some last) :
    s.DetectReportInfo t = .ok (infoReply first.1 last.1 t.rows.length) := by
  obtain ⟨k, obj, m, hm⟩ := hs.first_task
  have hlen : toInt (t.rows.map Prod.fst).length = t.rows.length := by
    rw [List.length_map]
    exact toInt_of_le (AutoTable.length_rows_le hmax)
  have hids : (t.rows.map Prod.fst).map toInt = t.rows.map Prod.fst := by
    rw [List.map_map]
    refine List.map_congr_left fun r hr => ?_
    have hpos := (t.bounded r hr).1
    have hle := hmax r hr
    obtain ⟨i, hi⟩ := Int.eq_ofNat_of_zero_le (Int.le_of_lt hpos)
    show toInt r.1 = r.1
    rw [hi]
    exact toInt_of_le (by omega)
  have hpos : 0 < t.rows.length := by
    cases hrows : t.rows with
    | nil =>
      rw [hrows] at hfirst
      cases hfirst
    | cons r rows => exact Nat.succ_pos _
  have hmin : index (t.rows.map Prod.fst) 0 = .ok first.1 := by
    rw [index, if_pos (Int.le_refl 0), Int.toNat_zero, ← List.head?_eq_getElem?, List.head?_map, hfirst]
    rfl
  have hidx : ((t.rows.length : Int) - 1).toNat = t.rows.length - 1 := by omega
  have hmaxId : index (t.rows.map Prod.fst) ((t.rows.length : Int) - 1) = .ok last.1 := by
    rw [index, if_pos (by omega), hidx, List.getElem?_map, ← List.getLast?_eq_getElem?, hlast]
    rfl
  have hdoc : s.ReadDBTableData (t.rows.map Prod.fst) = .ok (t.rows.map Prod.fst) := if_pos hs.bus
  have hne : (t.rows.length : Int) ≠ 0 := by omega
  have hall : (t.rows.map Prod.fst).take (t.rows.length : Int).toNat = t.rows.map Prod.fst := by
    refine List.take_of_length_le ?_
    rw [List.length_map]
    omega
  rw [CommSafeMng.DetectReportInfo, hm, ReportInfo, CommSafeDetect.ReportInfo, hdoc, except_ok_bind]
  simp only [hlen, hall, hids, if_neg hne, hmin, hmaxId, except_ok_bind]
  rfl

/-- The client is told the number of the first row, and pages from there. -/
theorem exists_info {s : CommSafeMng} (hs : s.Serving) {t : AutoTable DetectRow} (hne : t.rows ≠ [])
    (hmax : ∀ r ∈ t.rows, r.1 ≤ 2147483647) :
    ∃ (jRspData : Json) (start : Nat), s.DetectReportInfo t = .ok jRspData ∧
      jRspData.attr strAttriStartIdx = .ok (toString start) ∧
        jRspData.attr strAttriTotalSize = .ok (toString t.rows.length) ∧
          ∀ b, Pages s t start b (t.rows.map recordOf) ↔ Covers (HasLargest t) t.rows.length (asked b) := by
  have hfirst : t.rows.head? = some (t.rows.head hne) := List.head?_eq_some_head hne
  have hinfo := DetectReportInfo_eq hs hmax hfirst (List.getLast?_eq_some_getLast hne)
  generalize t.rows.head hne = first at hfirst hinfo
  generalize t.rows.getLast hne = last at hinfo
  obtain ⟨rest, hrows⟩ := List.head?_eq_some_iff.mp hfirst
  have hmem : first ∈ t.rows := List.mem_of_mem_head? hfirst
  obtain ⟨start, hstart⟩ := Int.eq_ofNat_of_zero_le (Int.le_of_lt (t.bounded first hmem).1)
  have hstartMax := hmax first hmem
  have hall : t.rowsFrom start = t.rows := by
    refine AutoTable.rowsFrom_eq_rows fun r hr => ?_
    have hsorted := t.sorted
    rw [hrows] at hr hsorted
    rcases List.mem_cons.mp hr with rfl | hr
    · omega
    · have := (List.pairwise_cons.mp hsorted).1 r hr
      omega
  have hend : t.rowsFrom start = [] → (start = 2147483648 ↔ HasLargest t) := by
    intro h
    rw [hall] at h
    exact absurd h hne
  refine ⟨_, start, hinfo, ?_, ?_, fun b => ?_⟩
  · rw [hstart]
    exact Json.attr_eq_ok.mpr rfl
  · exact Json.attr_eq_ok.mpr rfl
  · have hpages := pages_iff hs hmax _ (Nat.le_refl _) (by omega) hend b
    rw [hall] at hpages
    exact hpages

theorem covers_of_allPaged {s : CommSafeMng} (hs : s.Serving) {t : AutoTable DetectRow} (hne : t.rows ≠ [])
    (hmax : ∀ r ∈ t.rows, r.1 ≤ 2147483647) {b : Nat → Nat} (h : AllPaged s t b) :
    Covers (HasLargest t) t.rows.length (asked b) ∧ ∀ r ∈ t.rows, TwoParts r.2.data_src := by
  obtain ⟨jRspData, start, hinfo, hstart, -, hpages⟩ := exists_info hs hne hmax
  obtain ⟨jRspData', start', recs, hj, hstart', hp, hshows, -⟩ := h
  cases Except.ok.inj (hinfo.symm.trans hj)
  cases toString_nat_injective (Except.ok.inj (hstart.symm.trans hstart'))
  obtain ⟨rows, hsub, rfl⟩ := rows_of_pages hs (AutoTable.length_rows_le hmax) hp
  obtain ⟨rfl, hparts⟩ := (forall₂_shows_iff hsub).mp hshows
  exact ⟨(hpages b).mp hp, hparts⟩

/-- The client gets every row once and in order, as many as it was told, if and only if each
batch up to the last row is asked for with a text that is read as a positive `int`, the
request behind it with one that is not read as negative (as 0 where a row has the largest
number), and every data source has its two parts. -/
theorem allPaged_iff {s : CommSafeMng} (hs : s.Serving) {t : AutoTable DetectRow} (hne : t.rows ≠ [])
    (hmax : ∀ r ∈ t.rows, r.1 ≤ 2147483647) (b : Nat → Nat) :
    AllPaged s t b ↔
      Covers (HasLargest t) t.rows.length (asked b) ∧ ∀ r ∈ t.rows, TwoParts r.2.data_src := by
  constructor
  · exact covers_of_allPaged hs hne hmax
  · rintro ⟨hcovers, hparts⟩
    obtain ⟨jRspData, start, hinfo, hstart, htotal, hpages⟩ := exists_info hs hne hmax
    exact ⟨jRspData, start, _, hinfo, hstart, (hpages b).mpr hcovers,
      (forall₂_shows_iff fun _ => id).mpr ⟨rfl, hparts⟩, htotal⟩

/-- An application with one detection task. -/
def servingApp : CommSafeMng := ⟨true, [("Detect1", .new)], ⟨[]⟩⟩

theorem servingApp_serving : servingApp.Serving := ⟨rfl, List.cons_ne_nil _ _⟩

def gateRow : DetectRow := ⟨⟨"Detect1", "0", "0", "rtspcli1:gate"⟩, "2020-08-07 13:12:12", ""⟩

/-- One row, with the number after `seq`. -/
def gateTable (seq : Nat) : AutoTable DetectRow := (AutoTable.empty seq).insert gateRow

theorem gateRow_twoParts : TwoParts gateRow.data_src :=
  ⟨"rtspcli1".toList, "gate".toList, by decide, by decide, by decide, by decide, by decide, by unfold NulFree; decide⟩

theorem asked_one (k : Nat) : asked (fun _ => 1) k = 1 := by
  have h : atoi (toString 1) = 1 := by decide +kernel
  exact h

/-- What is left of nine rows after a deletion, each with a time of its own. -/
def gappedTable : AutoTable DetectRow where
  rows := [(1, gateRow), (5, { gateRow with alert_date := "2020-08-07 13:12:13" }),
    (9, { gateRow with alert_date := "2020-08-07 13:12:14" })]
  seq := 9
  sorted := by simp only [List.pairwise_cons, List.forall_mem_cons]; simp
  bounded := by simp only [List.forall_mem_cons]; simp

/-- A batch of two, then batches of one. -/
def twoThenOne : Nat → Nat
  | 0 => 2
  | _ + 1 => 1

theorem asked_twoThenOne : asked twoThenOne 0 = 2 ∧ ∀ k, asked twoThenOne (k + 1) = 1 := by
  have h2 : atoi (toString 2) = 2 := by decide +kernel
  exact ⟨h2, asked_one⟩

theorem allPaged_gappedTable : AllPaged servingApp gappedTable twoThenOne := by
  refine (allPaged_iff servingApp_serving (List.cons_ne_nil _ _) ?_ _).mpr ⟨?_, ?_⟩
  · simp only [gappedTable, List.forall_mem_cons]
    simp
  · obtain ⟨hfirst, hnext⟩ := asked_twoThenOne
    have hlen : (gappedTable.rows.length : Int) = 3 := rfl
    rw [hlen, covers_of_pos (by decide), hfirst, covers_of_pos (by decide), hnext, covers_of_nonpos (by decide), hnext]
    refine ⟨by decide, by decide, by decide, ?_⟩
    intro hlargest
    obtain ⟨r, hr, hlarge⟩ := hlargest
    have hsmall := (gappedTable.bounded r hr).2
    rw [hlarge] at hsmall
    exact absurd hsmall (by decide)
  · simp only [gappedTable, List.forall_mem_cons]
    exact ⟨gateRow_twoParts, gateRow_twoParts, gateRow_twoParts, fun r hr => absurd hr List.not_mem_nil⟩

/-- Behind the largest number of an `int` the client asks from 2147483648 on, which is read
as the smallest: the row comes again, with every further request. -/
theorem not_allPaged_largest : ¬ AllPaged servingApp (gateTable 2147483646) fun _ => 1 := by
  intro h
  have hmax : ∀ r ∈ (gateTable 2147483646).rows, r.1 ≤ 2147483647 := by
    intro r hr
    rw [List.mem_singleton.mp hr]
    decide
  have hcovers := (covers_of_allPaged servingApp_serving (List.cons_ne_nil _ _) hmax h).1
  have hlarge : HasLargest (gateTable 2147483646) := ⟨_, List.mem_singleton_self _, rfl⟩
  have hlen : ((gateTable 2147483646).rows.length : Int) = 1 := rfl
  rw [hlen, covers_of_pos (by decide), covers_of_nonpos (by rw [asked_one]; decide)] at hcovers
  have hzero := hcovers.2.2 hlarge
  rw [asked_one] at hzero
  exact absurd hzero (by decide)

end Perception.App
