import Perception.Lib.SortedMap
import Mathlib.Data.String.Basic

/-!
# The SQLite tables

The tables behind `CSqliteDbMng`, a row being its texts by column, without the
autoincrement id that orders the rows. Statements succeed, except that SQLite refuses a
transaction inside a transaction and a statement on a table that does not exist.
-/
namespace Perception.Db

set_option autoImplicit false

open Perception.Lib

/-- The texts of a row by column. -/
abbrev Row := List (String × String)

structure Sqlite where
  tables : List (String × List Row)
  inTransaction : Bool

namespace Sqlite

/-- `select * from strTable`, of a table that exists. -/
def select (db : Sqlite) (strTable : String) : List Row := (SortedMap.find? db.tables strTable).getD []

/-- `create table if not exists`. -/
def createTable (db : Sqlite) (strTable : String) : Sqlite :=
  if (SortedMap.find? db.tables strTable).isSome then db
  else { db with tables := SortedMap.insert db.tables strTable [] }

/-- `delete from strTable`. -/
def deleteFrom (db : Sqlite) (strTable : String) : Sqlite :=
  if (SortedMap.find? db.tables strTable).isSome then
    { db with tables := SortedMap.insert db.tables strTable [] }
  else db

def insertRows (db : Sqlite) (strTable : String) (rows : List Row) : Sqlite :=
  { db with tables := SortedMap.insert db.tables strTable (db.select strTable ++ rows) }

/-- Inside a transaction this fails and changes nothing. -/
def Begin (db : Sqlite) : Sqlite := { db with inTransaction := true }

def Commit (db : Sqlite) : Sqlite := { db with inTransaction := false }

/-- `CSmartDB::JsonTransaction`. Without a row the code of the last statement is that of
`begin`, which is not the code of a step, so it answers false and does not commit. -/
def JsonTransaction (db : Sqlite) (strTable : String) (rows : List Row) : Bool × Sqlite :=
  let db := db.Begin
  if rows.isEmpty then (false, db) else (true, (db.insertRows strTable rows).Commit)

/-- `CSqliteDbMng::InitDb` for one table: create it, and fill it when it is empty. Without
an insert statement there are no rows to write. -/
def InitDb (db : Sqlite) (strTable : String) (jDbCfg : Option (List Row)) : Sqlite :=
  let db := db.createTable strTable
  if 0 < (db.select strTable).length then db
  else
    match jDbCfg with
    | none => db
    | some rows => (db.JsonTransaction strTable rows).2

/-- The table is there and holds these rows. -/
def Holds (db : Sqlite) (strTable : String) (rows : List Row) : Prop :=
  SortedMap.find? db.tables strTable = some rows

theorem find?_deleteFrom (db : Sqlite) (t t' : String) :
    SortedMap.find? (db.deleteFrom t).tables t' =
      if t' = t then (SortedMap.find? db.tables t).map fun _ => [] else SortedMap.find? db.tables t' := by
  unfold deleteFrom
  cases ht : SortedMap.find? db.tables t with
  | none =>
    rw [if_neg (by simp)]
    split
    · next heq => rw [heq, ht, Option.map_none]
    · rfl
  | some rows =>
    rw [if_pos (by rfl)]
    exact SortedMap.find?_insert _ _ _ _

/-- What a table holds once it is initialised: what it held, or the rows if that was
nothing. -/
def filled : Option (List Row) → List Row → List Row
  | some (row :: rows), _ => row :: rows
  | _, rows => rows

theorem filled_getD (old : Option (List Row)) (rows : List Row) :
    filled old rows = if (old.getD []).isEmpty then rows else old.getD [] := by
  cases old with
  | none => rfl
  | some l => cases l <;> rfl

theorem find?_createTable (db : Sqlite) (t t' : String) :
    SortedMap.find? (db.createTable t).tables t' =
      if t' = t then some (db.select t) else SortedMap.find? db.tables t' := by
  unfold createTable select
  cases ht : SortedMap.find? db.tables t with
  | none => exact SortedMap.find?_insert _ _ _ _
  | some old =>
    rw [if_pos (by rfl)]
    split
    · next heq =>
      rw [heq, ht]
      rfl
    · rfl

theorem find?_JsonTransaction (db : Sqlite) (t t' : String) (rows : List Row) (h : db.select t = []) :
    SortedMap.find? (db.JsonTransaction t rows).2.tables t' =
      if t' = t ∧ rows ≠ [] then some rows else SortedMap.find? db.tables t' := by
  cases rows with
  | nil =>
    rw [if_neg fun hne => hne.2 rfl]
    rfl
  | cons row rows =>
    have hins : (db.JsonTransaction t (row :: rows)).2.tables =
        SortedMap.insert db.tables t (db.select t ++ row :: rows) := rfl
    rw [hins, h, List.nil_append, SortedMap.find?_insert]
    simp

/-- Initialising a table changes no other. -/
theorem find?_InitDb (db : Sqlite) (t t' : String) (rows : List Row) :
    SortedMap.find? (db.InitDb t (some rows)).tables t' =
      if t' = t then some (filled (SortedMap.find? db.tables t) rows) else SortedMap.find? db.tables t' := by
  have hsel : (db.createTable t).select t = db.select t := by
    rw [select, find?_createTable, if_pos rfl]
    rfl
  have hfill : filled (SortedMap.find? db.tables t) rows = if (db.select t).isEmpty then rows else db.select t :=
    filled_getD _ _
  rw [hfill]
  unfold InitDb
  simp only [hsel]
  cases hold : db.select t with
  | cons row old =>
    rw [if_pos (by simp), find?_createTable, hold]
    rfl
  | nil =>
    rw [if_neg (by simp)]
    show SortedMap.find? ((db.createTable t).JsonTransaction t rows).2.tables t' =
      if t' = t then some rows else _
    rw [find?_JsonTransaction _ _ _ _ (hsel.trans hold), find?_createTable, hold]
    by_cases hne : t' = t
    · simp only [if_pos hne]
      cases rows with
      | nil => simp
      | cons row rows => simp [hne]
    · rw [if_neg fun h => hne h.1, if_neg hne, if_neg hne]

end Sqlite

end Perception.Db
