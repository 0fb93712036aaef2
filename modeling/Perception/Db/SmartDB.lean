import Mathlib.Algebra.Group.Int.Defs
import Perception.Db.SqliteDbSvr

/-!
# Writing a JSON array through one handle

`CSmartDB` writes the rows of a document in one transaction. Every statement leaves its
code in `m_code`, and the last one decides the answer. The codes are those of SQLite and are
inputs; what a statement does to the database follows from its code.
-/
namespace Perception.Db

set_option autoImplicit false

def SQLITE_OK : Int := 0
def SQLITE_ERROR : Int := 1
def SQLITE_RANGE : Int := 25
def SQLITE_ROW : Int := 100
def SQLITE_DONE : Int := 101

/-- A value as `rapidjson` reads it; an integer of more than 64 bits is a real. -/
inductive Value where
  | null
  | string (s : String)
  | int (n : Int)
  | real (text : String)
  /-- A boolean, an array or an object. -/
  | other
  deriving DecidableEq

/-- A parameter of a statement. -/
inductive SqlVal where
  | null
  | text (s : String)
  | integer (n : Int)
  | real (text : String)
  deriving DecidableEq

/-- The members of an object in their order. -/
abbrev JRow := List (String × Value)

/-- An element of the array. -/
inductive Element where
  | object (members : JRow)
  | other
  deriving DecidableEq

/-- What ends the program or leaves it with an exception. -/
inductive Stop where
  | invalid_argument
  /-- An assertion of the library. -/
  | assertion
  deriving DecidableEq

/-- What `sqlite3_exec` returns: no code of a step. -/
structure ExecCode where
  code : Int
  ne_row : code ≠ SQLITE_ROW
  ne_done : code ≠ SQLITE_DONE

/-- What SQLite returns for the parameters and the step of a row. A step that fails may end
the transaction. -/
structure RowCodes where
  binds : List Int
  step : Int
  rollsBack : Bool

/-- What SQLite returns for the other statements. A commit that fails may end the
transaction. -/
structure TransactionCodes where
  begin_ : ExecCode
  rollback : ExecCode
  commit : ExecCode
  commitRollsBack : Bool

/-- A handle with its statement and the rows of the table it writes to. -/
structure CSmartDB where
  m_code : Int
  /-- The parameters of `m_statement`. -/
  params : List SqlVal
  inTransaction : Bool
  /-- The rows that every connection sees. -/
  committed : List (List SqlVal)
  /-- The rows of the open transaction. -/
  pending : List (List SqlVal)
  deriving DecidableEq

namespace CSmartDB

/-- A handle without a transaction. -/
def idle (m_code : Int) (params : List SqlVal) (rows : List (List SqlVal)) : CSmartDB :=
  ⟨m_code, params, false, rows, []⟩

/-- SQLite refuses a transaction inside a transaction. -/
def Begin (db : CSmartDB) (c : ExecCode) : CSmartDB :=
  if db.inTransaction then { db with m_code := SQLITE_ERROR }
  else { db with m_code := c.code, inTransaction := c.code = SQLITE_OK }

/-- SQLite refuses it without a transaction. -/
def RollBack (db : CSmartDB) (c : ExecCode) : CSmartDB :=
  if !db.inTransaction then { db with m_code := SQLITE_ERROR }
  else if c.code = SQLITE_OK then { db with m_code := c.code, inTransaction := false, pending := [] }
  else { db with m_code := c.code }

/-- SQLite refuses it without a transaction. -/
def Commit (db : CSmartDB) (c : ExecCode) (rollsBack : Bool) : CSmartDB :=
  if !db.inTransaction then { db with m_code := SQLITE_ERROR }
  else if c.code = SQLITE_OK then
    { db with
      m_code := c.code
      inTransaction := false
      committed := db.committed ++ db.pending
      pending := [] }
  else if rollsBack then { db with m_code := c.code, inTransaction := false, pending := [] }
  else { db with m_code := c.code }

section Transaction

variable {db : CSmartDB} {c : ExecCode} {rollsBack : Bool}

theorem RollBack_closed (h : db.inTransaction = false) : db.RollBack c = { db with m_code := SQLITE_ERROR } := by
  unfold RollBack
  rw [if_pos (by rw [h]; rfl)]

theorem RollBack_ok (h : db.inTransaction = true) (hc : c.code = SQLITE_OK) :
    db.RollBack c = { db with m_code := c.code, inTransaction := false, pending := [] } := by
  unfold RollBack
  rw [if_neg (by rw [h]; exact Bool.false_ne_true), if_pos hc]

theorem RollBack_failed (h : db.inTransaction = true) (hc : c.code ≠ SQLITE_OK) :
    db.RollBack c = { db with m_code := c.code } := by
  unfold RollBack
  rw [if_neg (by rw [h]; exact Bool.false_ne_true), if_neg hc]

theorem Commit_closed (h : db.inTransaction = false) :
    db.Commit c rollsBack = { db with m_code := SQLITE_ERROR } := by
  unfold Commit
  rw [if_pos (by rw [h]; rfl)]

theorem Commit_ok (h : db.inTransaction = true) (hc : c.code = SQLITE_OK) :
    db.Commit c rollsBack =
      { db with m_code := c.code, inTransaction := false, committed := db.committed ++ db.pending, pending := [] } := by
  unfold Commit
  rw [if_neg (by rw [h]; exact Bool.false_ne_true), if_pos hc]

/-- A commit that fails adds nothing. -/
theorem Commit_failed (h : db.inTransaction = true) (hc : c.code ≠ SQLITE_OK) :
    (db.Commit c rollsBack).committed = db.committed := by
  unfold Commit
  rw [if_neg (by rw [h]; exact Bool.false_ne_true), if_neg hc]
  split
  · rfl
  · rfl

/-- The code that a rollback leaves is not that of a step. -/
theorem RollBack_m_code (db : CSmartDB) (c : ExecCode) : (db.RollBack c).m_code ≠ SQLITE_DONE := by
  have hrefused : SQLITE_ERROR ≠ SQLITE_DONE := by decide
  unfold RollBack
  split
  · exact hrefused
  · split
    · exact c.ne_done
    · exact c.ne_done

end Transaction

/-- What a bind that fails with the code leaves in a parameter that held the value. -/
abbrev FailedBind := SqlVal → Int → SqlVal

/-- SQLite makes a parameter null before it binds it anew. -/
def LeavesNull (failedBind : FailedBind) : Prop :=
  ∀ old code, code ≠ SQLITE_OK → failedBind old code = .null

def BindNumber (n : Int) : Except Stop SqlVal :=
  if -2 ^ 31 ≤ n ∧ n < 2 ^ 31 then .ok (.integer n)
  else if 2 ^ 31 ≤ n ∧ n < 2 ^ 32 then .error .assertion
  else if -2 ^ 63 ≤ n ∧ n < 2 ^ 63 then .ok (.integer n)
  else if 2 ^ 63 ≤ n ∧ n < 2 ^ 64 then .error .assertion
  else .ok (.real (toString n))

/-- What `BindJsonValue` gives to SQLite. -/
def BindJsonValue : Value → Except Stop SqlVal
  | .null => .ok .null
  | .string s => .ok (.text (c_str s))
  | .int n => BindNumber n
  | .real text => .ok (.real text)
  | .other => .error .invalid_argument

/-- `val[key]`, of the first member with this key. -/
def member (row : JRow) (key : String) : Except Stop Value :=
  match row.find? fun m => m.1 = c_str key with
  | some m => .ok m.2
  | none => .error .assertion

variable (failedBind : FailedBind)

/-- `sqlite3_bind`. A place that the statement does not have is refused. -/
def bind (db : CSmartDB) (index : Nat) (v : SqlVal) (code : Int) : CSmartDB :=
  if db.params.length ≤ index then { db with m_code := SQLITE_RANGE }
  else if code = SQLITE_OK then { db with m_code := code, params := db.params.set index v }
  else { db with m_code := code, params := db.params.set index (failedBind (db.params.getD index .null) code) }

/-- The loop over the members. An exception comes with the handle as it is left. -/
def bindMembers (row : JRow) : JRow → Nat → List Int → CSmartDB → Except (Stop × CSmartDB) CSmartDB
  | [], _, _, db => .ok db
  | m :: ms, index, codes, db =>
    match member row m.1 >>= BindJsonValue with
    | .error e => .error (e, db)
    | .ok v => bindMembers row ms (index + 1) codes.tail (db.bind failedBind index v (codes.headD SQLITE_OK))

/-- `sqlite3_step` of the insertion. Without a transaction the row is there for good. -/
def step (db : CSmartDB) (codes : RowCodes) : CSmartDB :=
  if codes.step = SQLITE_DONE then
    if db.inTransaction then { db with m_code := codes.step, pending := db.pending ++ [db.params] }
    else { db with m_code := codes.step, committed := db.committed ++ [db.params] }
  else if codes.rollsBack then { db with m_code := codes.step, inTransaction := false, pending := [] }
  else { db with m_code := codes.step }

def ExcecuteJsonRow (db : CSmartDB) (val : Element) (codes : RowCodes) :
    Except (Stop × CSmartDB) (Bool × CSmartDB) :=
  match val with
  | .other => .error (.assertion, db)
  | .object row => do
    let db ← bindMembers failedBind row row 0 codes.binds db
    let db := db.step codes
    pure (db.m_code = SQLITE_DONE, db)

/-- The loop over the rows, each with the codes for it. -/
def insertRows (rollback : ExecCode) : List (Element × RowCodes) → CSmartDB → Except (Stop × CSmartDB) CSmartDB
  | [], db => .ok db
  | (val, codes) :: doc, db => do
    let (inserted, db) ← db.ExcecuteJsonRow failedBind val codes
    if !inserted then pure (db.RollBack rollback) else insertRows rollback doc db

def JsonTransaction (db : CSmartDB) (doc : List (Element × RowCodes)) (codes : TransactionCodes) :
    Except (Stop × CSmartDB) (Bool × CSmartDB) := do
  let db ← insertRows failedBind codes.rollback doc (db.Begin codes.begin_)
  if SQLITE_DONE ≠ db.m_code then pure (false, db)
  else pure (true, db.Commit codes.commit codes.commitRollsBack)

/-- A new statement has `n` parameters, which are null. -/
def Prepare (db : CSmartDB) (prepare : Int) (n : Nat) : Bool × CSmartDB :=
  if prepare = SQLITE_OK then (true, { db with m_code := prepare, params := List.replicate n .null })
  else (false, { db with m_code := prepare })

/-- `doc` is none for a text that is not JSON. -/
def ExcecuteJson (db : CSmartDB) (prepare : Int) (n : Nat) (doc : Option (List (Element × RowCodes)))
    (codes : TransactionCodes) : Except (Stop × CSmartDB) (Bool × CSmartDB) :=
  match doc with
  | none => .ok (false, db)
  | some doc =>
    match db.Prepare prepare n with
    | (false, db) => .ok (false, db)
    | (true, db) => db.JsonTransaction failedBind doc codes

end CSmartDB

end Perception.Db
