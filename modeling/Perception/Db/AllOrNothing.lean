import Perception.Db.SmartDB

/-!
# All rows or none

A document is written as a whole when SQLite returns the codes that the code counts on. The
answer is taken from the last code, and the codes of the transaction itself are not looked
at, so that an empty array, a commit, a rollback or a `begin` that fails are each missed.
-/
namespace Perception.Db

set_option autoImplicit false

/-- What is read of a member for SQLite. -/
def memberValue (row : JRow) (key : String) : Except Stop SqlVal := CSmartDB.member row key >>= CSmartDB.BindJsonValue

/-- The members of an element are not all read. -/
def Element.stops : Element → Bool
  | .object row => row.any fun m => !(memberValue row m.1).toBool
  | .other => true

/-- The row is stepped and inserted. -/
def Inserted (x : Element × RowCodes) : Prop := x.1.stops = false ∧ x.2.step = SQLITE_DONE

variable (failedBind : CSmartDB.FailedBind)

def boundParam (params : List SqlVal) (index : Nat) (v : SqlVal) (code : Int) : List SqlVal :=
  if params.length ≤ index then params
  else params.set index (if code = SQLITE_OK then v else failedBind (params.getD index .null) code)

def boundMembers (row : JRow) : JRow → Nat → List Int → List SqlVal → List SqlVal
  | [], _, _, params => params
  | m :: ms, index, codes, params =>
    match memberValue row m.1 with
    | .error _ => params
    | .ok v =>
      boundMembers row ms (index + 1) codes.tail (boundParam failedBind params index v (codes.headD SQLITE_OK))

/-- The parameters once a row is bound over those of the row before. -/
def Element.bound (params : List SqlVal) (codes : List Int) : Element → List SqlVal
  | .object row => boundMembers failedBind row row 0 codes params
  | .other => params

/-- The parameters that each row is stepped with. -/
def boundRows (params : List SqlVal) : List (Element × RowCodes) → List (List SqlVal)
  | [] => []
  | x :: doc => x.1.bound failedBind params x.2.binds :: boundRows (x.1.bound failedBind params x.2.binds) doc

/-- It answers true exactly when there is a row for good for each element, with the answer
false none is there, and no transaction is left open. -/
def AllOrNothing (doc : List (Element × RowCodes)) (rows : List (List SqlVal))
    (res : Except (Stop × CSmartDB) (Bool × CSmartDB)) : Prop :=
  ∃ answer db, res = .ok (answer, db) ∧
    (answer = true ↔ ∃ inserted, inserted.length = doc.length ∧ db.committed = rows ++ inserted) ∧
    (answer = false → db.committed = rows) ∧ db.inTransaction = false

/-- All rows are inserted, and the commit does not fail. -/
structure Completes (doc : List (Element × RowCodes)) (codes : TransactionCodes) : Prop where
  inserted : ∀ x ∈ doc, Inserted x
  commit : codes.begin_.code = SQLITE_OK → codes.commit.code = SQLITE_OK

/-- The step of a row fails, and what was inserted before it is undone. -/
def FailsClean (doc : List (Element × RowCodes)) (codes : TransactionCodes) : Prop :=
  ∃ done x rest, doc = done ++ x :: rest ∧ (∀ y ∈ done, Inserted y) ∧
    x.1.stops = false ∧ x.2.step ≠ SQLITE_DONE ∧
    if codes.begin_.code = SQLITE_OK then codes.rollback.code = SQLITE_OK ∨ x.2.rollsBack = true else done = []

/-- There is a row, and the statement cannot be prepared, or all rows are inserted, or one
fails and the others are undone. -/
def CodesAllow (prepare : Int) (doc : List (Element × RowCodes)) (codes : TransactionCodes) : Prop :=
  doc ≠ [] ∧ (prepare ≠ SQLITE_OK ∨ Completes doc codes ∨ FailsClean doc codes)

namespace CSmartDB

variable {failedBind} {db : CSmartDB} {val : Element} {codes : RowCodes} {row : JRow}

theorem bind_eq (db : CSmartDB) (index : Nat) (v : SqlVal) (code : Int) :
    ∃ m_code, db.bind failedBind index v code =
      { db with m_code := m_code, params := boundParam failedBind db.params index v code } := by
  unfold bind boundParam
  split
  · exact ⟨_, rfl⟩
  · split
    · exact ⟨_, rfl⟩
    · exact ⟨_, rfl⟩

theorem bindMembers_ok {ms : JRow} (h : ∀ m ∈ ms, (memberValue row m.1).toBool = true) (index : Nat) (codes : List Int)
    (db : CSmartDB) :
    ∃ code, bindMembers failedBind row ms index codes db =
      .ok { db with m_code := code, params := boundMembers failedBind row ms index codes db.params } := by
  induction ms generalizing index codes db with
  | nil => exact ⟨db.m_code, rfl⟩
  | cons m ms ih =>
    have hrest := ih fun m' hm' => h m' (List.mem_cons_of_mem m hm')
    have hm := h m List.mem_cons_self
    cases hv : memberValue row m.1 with
    | error e =>
      rw [hv] at hm
      cases hm
    | ok v =>
      have hmember : (member row m.1 >>= BindJsonValue) = .ok v := hv
      obtain ⟨c, hbind⟩ := bind_eq db index v (codes.headD SQLITE_OK)
      obtain ⟨code, hcode⟩ := hrest (index + 1) codes.tail (db.bind failedBind index v (codes.headD SQLITE_OK))
      refine ⟨code, ?_⟩
      rw [bindMembers, hmember, boundMembers, hv]
      exact hcode.trans (by rw [hbind])

theorem bindMembers_error {ms : JRow} (h : ∃ m ∈ ms, (memberValue row m.1).toBool = false) (index : Nat)
    (codes : List Int) (db : CSmartDB) : ∃ x, bindMembers failedBind row ms index codes db = .error x := by
  induction ms generalizing index codes db with
  | nil =>
    obtain ⟨m, hm, -⟩ := h
    exact absurd hm List.not_mem_nil
  | cons m ms ih =>
    cases hv : memberValue row m.1 with
    | error e =>
      have hmember : (member row m.1 >>= BindJsonValue) = .error e := hv
      refine ⟨(e, db), ?_⟩
      simp only [bindMembers, hmember]
    | ok v =>
      have hmember : (member row m.1 >>= BindJsonValue) = .ok v := hv
      simp only [bindMembers, hmember]
      obtain ⟨m', hm', hbad⟩ := h
      rcases List.mem_cons.mp hm' with rfl | hm'
      · rw [hv] at hbad
        cases hbad
      · exact ih ⟨m', hm', hbad⟩ _ _ _

/-- A row that is inserted: into the transaction, or for good without one. -/
def stored (db : CSmartDB) (params : List SqlVal) : CSmartDB :=
  { db with
    m_code := SQLITE_DONE
    params := params
    committed := if db.inTransaction then db.committed else db.committed ++ [params]
    pending := if db.inTransaction then db.pending ++ [params] else db.pending }

/-- A row whose step fails. -/
def failed (db : CSmartDB) (params : List SqlVal) (codes : RowCodes) : CSmartDB :=
  { db with
    m_code := codes.step
    params := params
    inTransaction := db.inTransaction && !codes.rollsBack
    pending := if codes.rollsBack then [] else db.pending }

theorem stops_object : (Element.object row).stops = false ↔ ∀ m ∈ row, (memberValue row m.1).toBool = true := by
  simp only [Element.stops, List.any_eq_false, Bool.not_eq_true', Bool.not_eq_false]

theorem step_of_done (h : codes.step = SQLITE_DONE) : db.step codes = db.stored db.params := by
  unfold step stored
  rw [if_pos h, h]
  split
  · rfl
  · rfl

theorem step_of_failed (h : codes.step ≠ SQLITE_DONE) : db.step codes = db.failed db.params codes := by
  unfold step failed
  rw [if_neg h]
  cases codes.rollsBack with
  | true => simp
  | false => simp

theorem ExcecuteJsonRow_of_bound {db' : CSmartDB} (h : bindMembers failedBind row row 0 codes.binds db = .ok db') :
    db.ExcecuteJsonRow failedBind (.object row) codes = .ok (decide ((db'.step codes).m_code = SQLITE_DONE), db'.step codes) := by
  rw [ExcecuteJsonRow, h]
  rfl

theorem row_inserted (h : Inserted (val, codes)) :
    db.ExcecuteJsonRow failedBind val codes = .ok (true, db.stored (val.bound failedBind db.params codes.binds)) := by
  obtain ⟨hstops, hdone⟩ := h
  cases val with
  | other => cases hstops
  | object row =>
    obtain ⟨c, hbound⟩ := bindMembers_ok (stops_object.mp hstops) 0 codes.binds db
    rw [ExcecuteJsonRow_of_bound hbound, step_of_done hdone]
    rfl

theorem row_failed (hstops : val.stops = false) (hcode : codes.step ≠ SQLITE_DONE) :
    db.ExcecuteJsonRow failedBind val codes = .ok (false, db.failed (val.bound failedBind db.params codes.binds) codes) := by
  cases val with
  | other => cases hstops
  | object row =>
    obtain ⟨c, hbound⟩ := bindMembers_ok (stops_object.mp hstops) 0 codes.binds db
    rw [ExcecuteJsonRow_of_bound hbound, step_of_failed hcode]
    exact congrArg (fun b => Except.ok (b, _)) (decide_eq_false hcode)

theorem row_stops (h : val.stops = true) : ∃ x, db.ExcecuteJsonRow failedBind val codes = .error x := by
  cases val with
  | other => exact ⟨_, rfl⟩
  | object row =>
    have hbad : ∃ m ∈ row, (memberValue row m.1).toBool = false := by
      simpa only [Element.stops, List.any_eq_true, Bool.not_eq_true'] using h
    obtain ⟨x, hx⟩ := bindMembers_error hbad 0 codes.binds db
    refine ⟨x, ?_⟩
    rw [ExcecuteJsonRow, hx]
    rfl

/-- The handle after rows that were all inserted. -/
def storedRows (failedBind : FailedBind) (db : CSmartDB) : List (Element × RowCodes) → CSmartDB
  | [] => db
  | x :: doc => (db.stored (x.1.bound failedBind db.params x.2.binds)).storedRows failedBind doc

variable {done rest doc : List (Element × RowCodes)} {rollback : ExecCode}

theorem insertRows_append (h : ∀ x ∈ done, Inserted x) (rest : List (Element × RowCodes)) (db : CSmartDB) :
    insertRows failedBind rollback (done ++ rest) db = insertRows failedBind rollback rest (db.storedRows failedBind done) := by
  induction done generalizing db with
  | nil => rfl
  | cons x done ih =>
    rw [List.cons_append, insertRows, row_inserted (h x List.mem_cons_self)]
    exact ih (fun y hy => h y (List.mem_cons_of_mem x hy)) _

theorem insertRows_failed {x : Element × RowCodes} (hstops : x.1.stops = false) (hcode : x.2.step ≠ SQLITE_DONE) :
    insertRows failedBind rollback (x :: rest) db =
      .ok ((db.failed (x.1.bound failedBind db.params x.2.binds) x.2).RollBack rollback) := by
  rw [insertRows, row_failed hstops hcode]
  rfl

theorem insertRows_stops {x : Element × RowCodes} (h : x.1.stops = true) :
    ∃ e, insertRows failedBind rollback (x :: rest) db = .error e := by
  obtain ⟨e, he⟩ := @row_stops failedBind db x.1 x.2 h
  refine ⟨e, ?_⟩
  rw [insertRows, he]
  rfl

theorem storedRows_inTransaction (db : CSmartDB) (doc : List (Element × RowCodes)) :
    (db.storedRows failedBind doc).inTransaction = db.inTransaction := by
  induction doc generalizing db with
  | nil => rfl
  | cons x doc ih => exact ih _

theorem storedRows_m_code (db : CSmartDB) (h : doc ≠ []) : (db.storedRows failedBind doc).m_code = SQLITE_DONE := by
  induction doc generalizing db with
  | nil => exact absurd rfl h
  | cons x doc ih =>
    cases doc with
    | nil => rfl
    | cons y doc => exact ih (db.stored (x.1.bound failedBind db.params x.2.binds)) (List.cons_ne_nil y doc)

/-- In a transaction the rows wait for the commit. -/
theorem storedRows_open (db : CSmartDB) (doc : List (Element × RowCodes)) (h : db.inTransaction = true) :
    (db.storedRows failedBind doc).committed = db.committed ∧
      (db.storedRows failedBind doc).pending = db.pending ++ boundRows failedBind db.params doc := by
  induction doc generalizing db with
  | nil => exact ⟨rfl, (List.append_nil _).symm⟩
  | cons x doc ih =>
    obtain ⟨hc, hp⟩ := ih (db.stored (x.1.bound failedBind db.params x.2.binds)) h
    constructor
    · exact hc.trans (if_pos h)
    · have hstored : (db.stored (x.1.bound failedBind db.params x.2.binds)).pending =
          db.pending ++ [x.1.bound failedBind db.params x.2.binds] := if_pos h
      rw [storedRows, hp, hstored, List.append_assoc]
      rfl

/-- Without one they are there at once. -/
theorem storedRows_closed (db : CSmartDB) (doc : List (Element × RowCodes)) (h : db.inTransaction = false) :
    (db.storedRows failedBind doc).committed = db.committed ++ boundRows failedBind db.params doc := by
  induction doc generalizing db with
  | nil => exact (List.append_nil _).symm
  | cons x doc ih =>
    have hstored : (db.stored (x.1.bound failedBind db.params x.2.binds)).committed =
        db.committed ++ [x.1.bound failedBind db.params x.2.binds] := if_neg (by rw [h]; exact Bool.false_ne_true)
    rw [storedRows, ih (db.stored (x.1.bound failedBind db.params x.2.binds)) h, hstored, List.append_assoc]
    rfl

theorem length_boundRows (params : List SqlVal) (doc : List (Element × RowCodes)) :
    (boundRows failedBind params doc).length = doc.length := by
  induction doc generalizing params with
  | nil => rfl
  | cons x doc ih => rw [boundRows, List.length_cons, ih, List.length_cons]

/-- A document is inserted whole, or up to a row that fails or that is not read. -/
theorem split_inserted (doc : List (Element × RowCodes)) :
    (∀ x ∈ doc, Inserted x) ∨
      ∃ done x rest, doc = done ++ x :: rest ∧ (∀ y ∈ done, Inserted y) ∧ ¬ Inserted x := by
  induction doc with
  | nil => exact Or.inl fun x hx => absurd hx List.not_mem_nil
  | cons x doc ih =>
    by_cases hx : Inserted x
    · rcases ih with hall | ⟨done, y, rest, rfl, hdone, hy⟩
      · apply Or.inl
        intro y hy
        rcases List.mem_cons.mp hy with rfl | hy
        · exact hx
        · exact hall y hy
      · refine Or.inr ⟨x :: done, y, rest, rfl, fun z hz => ?_, hy⟩
        rcases List.mem_cons.mp hz with rfl | hz
        · exact hx
        · exact hdone z hz
    · exact Or.inr ⟨[], x, doc, rfl, fun y hy => absurd hy List.not_mem_nil, hx⟩

variable {n : Nat} {rows : List (List SqlVal)}

theorem allOrNothing_true : AllOrNothing doc rows (.ok (true, db)) ↔
    (∃ inserted, inserted.length = doc.length ∧ db.committed = rows ++ inserted) ∧ db.inTransaction = false := by
  constructor
  · rintro ⟨answer, db', heq, hall, -, hclosed⟩
    cases heq
    exact ⟨hall.mp rfl, hclosed⟩
  · intro ⟨hall, hclosed⟩
    exact ⟨true, db, rfl, iff_of_true rfl hall, fun h => absurd h.symm Bool.false_ne_true, hclosed⟩

/-- As many rows as there are elements are not there if none is. -/
theorem not_inserted_of_same {inserted : List (List SqlVal)} (h : doc ≠ []) (hlen : inserted.length = doc.length) :
    rows ≠ rows ++ inserted := by
  intro heq
  rw [List.append_right_eq_self.mp heq.symm, List.length_nil] at hlen
  exact h (List.length_eq_zero_iff.mp hlen.symm)

theorem allOrNothing_false (h : doc ≠ []) : AllOrNothing doc rows (.ok (false, db)) ↔
    db.committed = rows ∧ db.inTransaction = false := by
  constructor
  · rintro ⟨answer, db', heq, -, hnone, hclosed⟩
    cases heq
    exact ⟨hnone rfl, hclosed⟩
  · intro ⟨hnone, hclosed⟩
    refine ⟨false, db, rfl, iff_of_false Bool.false_ne_true ?_, fun _ => hnone, hclosed⟩
    rintro ⟨inserted, hlen, hall⟩
    rw [hnone] at hall
    exact not_inserted_of_same h hlen hall

theorem not_allOrNothing_empty : ¬ AllOrNothing [] rows (.ok (false, db)) := by
  rintro ⟨answer, db', heq, hall, hnone, -⟩
  cases heq
  have hsame : db.committed = rows := hnone rfl
  exact Bool.false_ne_true (hall.mpr ⟨[], rfl, hsame.trans (List.append_nil rows).symm⟩)

theorem not_allOrNothing_error (e : Stop × CSmartDB) : ¬ AllOrNothing doc rows (.error e) := by
  rintro ⟨answer, db', heq, -⟩
  cases heq

/-- The handle behind `begin`. -/
def begun (c : ExecCode) (n : Nat) (rows : List (List SqlVal)) : CSmartDB :=
  ⟨c.code, List.replicate n .null, c.code = SQLITE_OK, rows, []⟩

theorem ExcecuteJson_of_prepared (m_code : Int) (params : List SqlVal) (codes : TransactionCodes) :
    (idle m_code params rows).ExcecuteJson failedBind SQLITE_OK n (some doc) codes =
      (insertRows failedBind codes.rollback doc (begun codes.begin_ n rows)).bind fun db =>
        if SQLITE_DONE ≠ db.m_code then .ok (false, db)
        else .ok (true, db.Commit codes.commit codes.commitRollsBack) := rfl

theorem ExcecuteJson_unprepared {prepare : Int} (h : prepare ≠ SQLITE_OK) (m_code : Int) (params : List SqlVal)
    (codes : TransactionCodes) :
    (idle m_code params rows).ExcecuteJson failedBind prepare n (some doc) codes =
      .ok (false, { idle m_code params rows with m_code := prepare }) := by
  rw [ExcecuteJson, Prepare, if_neg h]

/-- The rows wait for the commit if `begin` has succeeded. -/
theorem storedRows_begun_open {c : ExecCode} (hbegin : c.code = SQLITE_OK) (doc : List (Element × RowCodes)) :
    ((begun c n rows).storedRows failedBind doc).inTransaction = true ∧
      ((begun c n rows).storedRows failedBind doc).committed = rows ∧
      ((begun c n rows).storedRows failedBind doc).pending = boundRows failedBind (begun c n rows).params doc := by
  have hopen : (begun c n rows).inTransaction = true := decide_eq_true hbegin
  obtain ⟨hcommitted, hpending⟩ := storedRows_open _ doc hopen
  exact ⟨(storedRows_inTransaction _ doc).trans hopen, hcommitted, hpending⟩

theorem storedRows_begun_closed {c : ExecCode} (hbegin : c.code ≠ SQLITE_OK) (doc : List (Element × RowCodes)) :
    ((begun c n rows).storedRows failedBind doc).inTransaction = false ∧
      ((begun c n rows).storedRows failedBind doc).committed = rows ++ boundRows failedBind (begun c n rows).params doc := by
  have hclosed : (begun c n rows).inTransaction = false := decide_eq_false hbegin
  exact ⟨(storedRows_inTransaction _ doc).trans hclosed, storedRows_closed _ doc hclosed⟩

/-- All rows are inserted. -/
theorem allOrNothing_inserted_iff (hne : doc ≠ []) (h : ∀ x ∈ doc, Inserted x) (m_code : Int) (params : List SqlVal)
    (codes : TransactionCodes) :
    AllOrNothing doc rows ((idle m_code params rows).ExcecuteJson failedBind SQLITE_OK n (some doc) codes) ↔
      (codes.begin_.code = SQLITE_OK → codes.commit.code = SQLITE_OK) := by
  have hloop : insertRows failedBind codes.rollback doc (begun codes.begin_ n rows) =
      .ok ((begun codes.begin_ n rows).storedRows failedBind doc) := by
    have happ := @insertRows_append failedBind doc codes.rollback h [] (begun codes.begin_ n rows)
    rw [List.append_nil] at happ
    exact happ
  have hres : (idle m_code params rows).ExcecuteJson failedBind SQLITE_OK n (some doc) codes =
      .ok (true, ((begun codes.begin_ n rows).storedRows failedBind doc).Commit codes.commit codes.commitRollsBack) := by
    rw [ExcecuteJson_of_prepared, hloop]
    exact if_neg (not_not.mpr (storedRows_m_code _ hne).symm)
  rw [hres, allOrNothing_true]
  by_cases hbegin : codes.begin_.code = SQLITE_OK
  · obtain ⟨htr, hcommitted, hpending⟩ := @storedRows_begun_open failedBind n rows _ hbegin doc
    by_cases hcommit : codes.commit.code = SQLITE_OK
    · rw [Commit_ok htr hcommit]
      have hall : _ ++ _ = rows ++ boundRows failedBind (begun codes.begin_ n rows).params doc :=
        congrArg₂ (· ++ ·) hcommitted hpending
      exact iff_of_true ⟨⟨_, length_boundRows _ doc, hall⟩, rfl⟩ fun _ => hcommit
    · refine iff_of_false ?_ fun hb => hcommit (hb hbegin)
      have hnone := (@Commit_failed _ _ codes.commitRollsBack htr hcommit).trans hcommitted
      rintro ⟨⟨inserted, hlen, hall⟩, -⟩
      exact not_inserted_of_same hne hlen (hnone.symm.trans hall)
  · obtain ⟨htr, hcommitted⟩ := @storedRows_begun_closed failedBind n rows _ hbegin doc
    rw [Commit_closed htr]
    exact iff_of_true ⟨⟨_, length_boundRows _ doc, hcommitted⟩, htr⟩ fun hc => absurd hc hbegin

/-- The step of a row fails. -/
theorem allOrNothing_failed_iff {x : Element × RowCodes} (h : ∀ y ∈ done, Inserted y) (hstops : x.1.stops = false)
    (hcode : x.2.step ≠ SQLITE_DONE) (m_code : Int) (params : List SqlVal) (codes : TransactionCodes) :
    AllOrNothing (done ++ x :: rest) rows
        ((idle m_code params rows).ExcecuteJson failedBind SQLITE_OK n (some (done ++ x :: rest)) codes) ↔
      if codes.begin_.code = SQLITE_OK then codes.rollback.code = SQLITE_OK ∨ x.2.rollsBack = true else done = [] := by
  have hne : done ++ x :: rest ≠ [] := List.append_ne_nil_of_right_ne_nil done (List.cons_ne_nil x rest)
  have hloop : insertRows failedBind codes.rollback (done ++ x :: rest) (begun codes.begin_ n rows) =
      .ok ((((begun codes.begin_ n rows).storedRows failedBind done).failed
        (x.1.bound failedBind ((begun codes.begin_ n rows).storedRows failedBind done).params x.2.binds) x.2).RollBack codes.rollback) := by
    rw [insertRows_append h, insertRows_failed hstops hcode]
  rw [ExcecuteJson_of_prepared, hloop]
  generalize x.1.bound failedBind ((begun codes.begin_ n rows).storedRows failedBind done).params x.2.binds = bound
  have hres : (Except.ok ((((begun codes.begin_ n rows).storedRows failedBind done).failed bound x.2).RollBack codes.rollback) :
      Except (Stop × CSmartDB) CSmartDB).bind (fun db =>
        if SQLITE_DONE ≠ db.m_code then .ok (false, db)
        else .ok (true, db.Commit codes.commit codes.commitRollsBack)) =
      .ok (false, (((begun codes.begin_ n rows).storedRows failedBind done).failed bound x.2).RollBack codes.rollback) :=
    if_pos (RollBack_m_code _ _).symm
  rw [hres, allOrNothing_false hne]
  by_cases hbegin : codes.begin_.code = SQLITE_OK
  · obtain ⟨htr, hcommitted, -⟩ := @storedRows_begun_open failedBind n rows _ hbegin done
    rw [if_pos hbegin]
    cases hback : x.2.rollsBack with
    | true =>
      have hclosed : (((begun codes.begin_ n rows).storedRows failedBind done).failed bound x.2).inTransaction = false := by
        simp only [failed, hback, Bool.not_true, Bool.and_false]
      rw [RollBack_closed hclosed]
      exact iff_of_true ⟨hcommitted, hclosed⟩ (Or.inr rfl)
    | false =>
      have hstill : (((begun codes.begin_ n rows).storedRows failedBind done).failed bound x.2).inTransaction = true := by
        simp only [failed, hback, htr, Bool.not_false, Bool.and_self]
      by_cases hroll : codes.rollback.code = SQLITE_OK
      · rw [RollBack_ok hstill hroll]
        exact iff_of_true ⟨hcommitted, rfl⟩ (Or.inl hroll)
      · rw [RollBack_failed hstill hroll]
        refine iff_of_false (fun hb => Bool.false_ne_true (hb.2.symm.trans hstill)) fun hb => ?_
        exact hb.elim hroll Bool.false_ne_true
  · obtain ⟨htr, hcommitted⟩ := @storedRows_begun_closed failedBind n rows _ hbegin done
    rw [if_neg hbegin]
    have hclosed : (((begun codes.begin_ n rows).storedRows failedBind done).failed bound x.2).inTransaction = false := by
      simp only [failed, htr, Bool.false_and]
    have hlen := @length_boundRows failedBind (begun codes.begin_ n rows).params done
    rw [RollBack_closed hclosed]
    show ((begun codes.begin_ n rows).storedRows failedBind done).committed = rows ∧ _ = false ↔ _
    rw [hcommitted, and_iff_left hclosed]
    constructor
    · intro hb
      have hnil : boundRows failedBind (begun codes.begin_ n rows).params done = [] := List.append_right_eq_self.mp hb
      rw [hnil] at hlen
      exact List.length_eq_zero_iff.mp hlen.symm
    · intro hb
      rw [hb]
      exact List.append_nil rows

/-- The first row that is not inserted is one and the same. -/
theorem split_unique {done' rest' : List (Element × RowCodes)} {x x' : Element × RowCodes}
    (heq : done ++ x :: rest = done' ++ x' :: rest') (h : ∀ y ∈ done, Inserted y) (h' : ∀ y ∈ done', Inserted y)
    (hx : ¬ Inserted x) (hx' : ¬ Inserted x') : done = done' ∧ x = x' := by
  induction done generalizing done' with
  | nil =>
    cases done' with
    | nil => exact ⟨rfl, (List.cons.inj heq).1⟩
    | cons y done' =>
      obtain ⟨rfl, -⟩ := List.cons.inj heq
      exact absurd (h' x List.mem_cons_self) hx
  | cons y done ih =>
    cases done' with
    | nil =>
      obtain ⟨rfl, -⟩ := List.cons.inj heq
      exact absurd (h y List.mem_cons_self) hx'
    | cons y' done' =>
      obtain ⟨rfl, htail⟩ := List.cons.inj heq
      obtain ⟨rfl, hxx⟩ := ih htail (fun z hz => h z (List.mem_cons_of_mem y hz))
        fun z hz => h' z (List.mem_cons_of_mem y hz)
      exact ⟨rfl, hxx⟩

theorem not_inserted_of_failed {x : Element × RowCodes} (h : x.2.step ≠ SQLITE_DONE) : ¬ Inserted x :=
  fun hx => h hx.2

theorem codesAllow_of_prepared (hne : doc ≠ []) (codes : TransactionCodes) :
    CodesAllow SQLITE_OK doc codes ↔ Completes doc codes ∨ FailsClean doc codes := by
  unfold CodesAllow
  rw [and_iff_right hne, or_iff_right (not_not.mpr rfl)]

/-- The rows are written as a whole exactly for these codes. -/
theorem ExcecuteJson_allOrNothing_iff (failedBind : FailedBind) (m_code : Int) (params : List SqlVal)
    (rows : List (List SqlVal)) (prepare : Int) (n : Nat) (doc : List (Element × RowCodes)) (codes : TransactionCodes) :
    AllOrNothing doc rows ((idle m_code params rows).ExcecuteJson failedBind prepare n (some doc) codes) ↔
      CodesAllow prepare doc codes := by
  by_cases hne : doc = []
  · subst hne
    refine iff_of_false ?_ fun h => h.1 rfl
    by_cases hprep : prepare = SQLITE_OK
    · subst hprep
      have hempty : (idle m_code params rows).ExcecuteJson failedBind SQLITE_OK n (some []) codes =
          .ok (false, begun codes.begin_ n rows) := if_pos codes.begin_.ne_done.symm
      rw [hempty]
      exact not_allOrNothing_empty
    · rw [ExcecuteJson_unprepared hprep]
      exact not_allOrNothing_empty
  · by_cases hprep : prepare = SQLITE_OK
    · subst hprep
      rw [codesAllow_of_prepared hne]
      rcases split_inserted doc with hall | ⟨done, x, rest, rfl, hdone, hx⟩
      · rw [allOrNothing_inserted_iff hne hall]
        constructor
        · intro h
          exact Or.inl ⟨hall, h⟩
        · rintro (h | ⟨done, x, rest, rfl, -, -, hcode, -⟩)
          · exact h.commit
          · exact absurd (hall x (List.mem_append_right done List.mem_cons_self)) (not_inserted_of_failed hcode)
      · have hnot : ¬ Completes (done ++ x :: rest) codes := fun h =>
          hx (h.inserted x (List.mem_append_right done List.mem_cons_self))
        rw [or_iff_right hnot]
        cases hstops : x.1.stops with
        | true =>
          obtain ⟨e, he⟩ := @insertRows_stops failedBind ((begun codes.begin_ n rows).storedRows failedBind done)
            rest codes.rollback x hstops
          rw [ExcecuteJson_of_prepared, insertRows_append hdone, he]
          apply iff_of_false (not_allOrNothing_error e)
          rintro ⟨done', x', rest', heq, hdone', hread, hcode, -⟩
          obtain ⟨-, rfl⟩ := split_unique heq hdone hdone' hx (not_inserted_of_failed hcode)
          exact Bool.false_ne_true (hread.symm.trans hstops)
        | false =>
          have hcode : x.2.step ≠ SQLITE_DONE := fun hcode => hx ⟨hstops, hcode⟩
          rw [allOrNothing_failed_iff hdone hstops hcode]
          constructor
          · intro h
            exact ⟨done, x, rest, rfl, hdone, hstops, hcode, h⟩
          · rintro ⟨done', x', rest', heq, hdone', -, hcode', h⟩
            obtain ⟨rfl, rfl⟩ := split_unique heq hdone hdone' hx (not_inserted_of_failed hcode')
            exact h
    · rw [ExcecuteJson_unprepared hprep, allOrNothing_false hne]
      exact iff_of_true ⟨rfl, rfl⟩ ⟨hne, Or.inl hprep⟩

def okCode : ExecCode := ⟨SQLITE_OK, by decide, by decide⟩

def nullBind : FailedBind := fun _ _ => .null

/-- The array is empty, and the transaction stays open. -/
theorem not_allOrNothing_empty_array :
    (idle 0 [] []).ExcecuteJson nullBind SQLITE_OK 1 (some []) ⟨okCode, okCode, okCode, false⟩ =
        .ok (false, ⟨0, [.null], true, [], []⟩) ∧
      ¬ AllOrNothing [] []
        ((idle 0 [] []).ExcecuteJson nullBind SQLITE_OK 1 (some []) ⟨okCode, okCode, okCode, false⟩) := by
  have hres : (idle 0 [] []).ExcecuteJson nullBind SQLITE_OK 1 (some []) ⟨okCode, okCode, okCode, false⟩ =
      .ok (false, ⟨0, [.null], true, [], []⟩) := rfl
  refine ⟨hres, ?_⟩
  rw [hres]
  rintro ⟨answer, db, heq, -, -, hclosed⟩
  cases heq
  exact Bool.false_ne_true hclosed.symm

end CSmartDB

end Perception.Db
