import Perception.Db.SmartDB
import Perception.Lib.Collect

/-!
# Reading a table

`CSmartDB::Query` steps a statement until it is done and writes an object after every other
step. What SQLite returns for the steps is arbitrary, and so are the columns that are read
after a step that returns no row.
-/
namespace Perception.Db

set_option autoImplicit false

open Perception.Lib

/-- A column of a step, as the `sqlite3_column` functions give it. -/
inductive ColumnVal where
  | integer (n : Int)
  | float (text : String)
  /-- A float that is not finite. -/
  | infinity
  | text (s : String)
  | blob (bytes : List Char)
  | null
  deriving DecidableEq

structure StepResult where
  code : Int
  columns : List ColumnVal

/-- What the builder has written so far. -/
structure JsonBuilder where
  objects : List JRow
  /-- Every key has a value. -/
  wellFormed : Bool

namespace CSmartDB

/-- What is written for a column. The writer writes nothing for a number that is not finite;
a blob is read up to a zero byte, and past its end if it has none. -/
def BuildJsonValue : ColumnVal → Option (Option Value)
  | .integer n => some (some (.int n))
  | .float text => some (some (.real text))
  | .infinity => some none
  | .text s => some (some (.string (c_str s)))
  | .blob bytes => if '\x00' ∈ bytes then some (some (.string (String.ofList (cString bytes)))) else none
  | .null => some (some .null)

/-- The members of an object with what is written for each. -/
def buildMembers (names : List String) (columns : List ColumnVal) : Option (List (String × Option Value)) :=
  (names.zip columns).mapM fun c => do
    let v ← BuildJsonValue c.2
    pure (c_str c.1, v)

def BuildJsonArray (names : List String) (columns : List ColumnVal) (jBuilder : JsonBuilder) : Option JsonBuilder := do
  let members ← buildMembers names columns
  pure
    { objects := jBuilder.objects ++ [members.map fun m => (m.1, m.2.getD .null)]
      wellFormed := jBuilder.wellFormed && members.all fun m => m.2.isSome }

/-- The loop from step `i` on; none without fuel, and where the builder reads past the end of
a blob. -/
def BuildJsonObject (names : List String) (steps : Nat → StepResult) : Nat → Nat → JsonBuilder → Option JsonBuilder
  | 0, _, _ => none
  | fuel + 1, i, jBuilder =>
    if (steps i).code = SQLITE_DONE then some jBuilder
    else do
      let jBuilder ← BuildJsonArray names (steps i).columns jBuilder
      BuildJsonObject names steps fuel (i + 1) jBuilder

/-- The document that a query leaves, null for a text that is not JSON. A statement that
cannot be prepared leaves it as it was. -/
def Query (prepare : Int) (names : List String) (steps : Nat → StepResult) (fuel : Nat) (doc : Option (List JRow)) :
    Option (Option (List JRow)) :=
  if prepare ≠ SQLITE_OK then some doc
  else do
    let jBuilder ← BuildJsonObject names steps fuel 0 ⟨[], true⟩
    pure (if jBuilder.wellFormed then some jBuilder.objects else none)

end CSmartDB

open CSmartDB

/-- The object of a row. -/
def rowObject (names : List String) (columns : List ColumnVal) : JRow :=
  (names.zip columns).map fun c => (c_str c.1, ((BuildJsonValue c.2).getD none).getD .null)

/-- A column that the builder can read and the writer write. -/
def ColumnVal.Written (c : ColumnVal) : Prop := (BuildJsonValue c).any Option.isSome = true

/-- The columns of a step that get into an object. -/
def StepResult.Written (names : List String) (s : StepResult) : Prop := ∀ c ∈ names.zip s.columns, c.2.Written

/-- The query returns, with one object for each of the first `rows` steps. -/
def ReturnsRows (names : List String) (steps : Nat → StepResult) (doc : Option (List JRow)) (rows : Nat) : Prop :=
  ∃ fuel, Query SQLITE_OK names steps fuel doc =
    some (some ((List.range rows).map fun i => rowObject names (steps i).columns))

/-- What is written for the columns, member by member. -/
theorem members_eq {cs : List (String × ColumnVal)} {members : List (String × Option Value)}
    (h : cs.mapM (fun c => do
      let v ← BuildJsonValue c.2
      pure (c_str c.1, v)) = some members) :
    (members.map fun m => (m.1, m.2.getD .null)) = (cs.map fun c => (c_str c.1, ((BuildJsonValue c.2).getD none).getD .null)) ∧
      ((members.all fun m => m.2.isSome) = true ↔ ∀ c ∈ cs, c.2.Written) := by
  have hmembers := mapM_eq_some_iff.mp h
  clear h
  induction hmembers with
  | nil => exact ⟨rfl, iff_of_true rfl fun _ h => absurd h List.not_mem_nil⟩
  | cons hc _ ih =>
    obtain ⟨hmap, hall⟩ := ih
    obtain ⟨v, hv, hm⟩ := Option.bind_eq_some_iff.mp hc
    obtain rfl := Option.some.inj hm
    rw [List.map_cons, List.map_cons, hmap, hv, List.all_cons, Bool.and_eq_true, hall, List.forall_mem_cons,
      ColumnVal.Written, hv]
    exact ⟨rfl, Iff.rfl⟩

theorem BuildJsonArray_eq_some {names : List String} {s : StepResult} {jBuilder jBuilder' : JsonBuilder}
    (h : BuildJsonArray names s.columns jBuilder = some jBuilder') :
    jBuilder'.objects = jBuilder.objects ++ [rowObject names s.columns] ∧
      (jBuilder'.wellFormed = true ↔ jBuilder.wellFormed = true ∧ s.Written names) := by
  obtain ⟨members, hmembers, h⟩ := Option.bind_eq_some_iff.mp h
  obtain rfl := Option.some.inj h
  obtain ⟨hmap, hall⟩ := members_eq hmembers
  refine ⟨congrArg (fun o => jBuilder.objects ++ [o]) hmap, ?_⟩
  rw [Bool.and_eq_true, hall]
  rfl

/-- An object whose columns can all be written is written. -/
theorem exists_BuildJsonArray {names : List String} {s : StepResult} (h : s.Written names) (jBuilder : JsonBuilder) :
    ∃ jBuilder', BuildJsonArray names s.columns jBuilder = some jBuilder' := by
  obtain ⟨members, hmembers⟩ : ∃ members, buildMembers names s.columns = some members := by
    apply exists_mapM_of_forall
    intro c hc
    obtain ⟨v, hv, -⟩ := (Option.any_eq_true _ _).mp (h c hc)
    exact ⟨(c_str c.1, v), Option.bind_eq_some_iff.mpr ⟨v, hv, rfl⟩⟩
  exact ⟨_, Option.bind_eq_some_iff.mpr ⟨members, hmembers, rfl⟩⟩

variable {names : List String} {steps : Nat → StepResult}

/-- A loop that ends has found the code for "done", and has written an object for each step
before. -/
theorem exists_done {fuel i : Nat} {jBuilder jBuilder' : JsonBuilder}
    (h : BuildJsonObject names steps fuel i jBuilder = some jBuilder') :
    ∃ n, (steps (i + n)).code = SQLITE_DONE ∧ (∀ j < n, (steps (i + j)).code ≠ SQLITE_DONE) ∧
      jBuilder'.objects = jBuilder.objects ++ (List.range n).map (fun j => rowObject names (steps (i + j)).columns) ∧
      (jBuilder'.wellFormed = true ↔ jBuilder.wellFormed = true ∧ ∀ j < n, (steps (i + j)).Written names) := by
  induction fuel generalizing i jBuilder with
  | zero => cases h
  | succ fuel ih =>
    rw [BuildJsonObject] at h
    split at h
    · rename_i hdone
      obtain rfl := Option.some.inj h
      refine ⟨0, hdone, fun j hj => absurd hj j.not_lt_zero, (List.append_nil _).symm, ?_⟩
      exact (and_iff_left fun j hj => absurd hj j.not_lt_zero).symm
    · rename_i hrow
      obtain ⟨jBuilder₁, harray, h⟩ := Option.bind_eq_some_iff.mp h
      obtain ⟨hobjects, hwell⟩ := BuildJsonArray_eq_some harray
      obtain ⟨n, hdone, hrows, hobjects', hwell'⟩ := ih h
      have hplace : ∀ j, i + 1 + j = i + (j + 1) := fun j => by omega
      simp only [hplace] at hdone hrows hobjects' hwell'
      refine ⟨n + 1, hdone, ?_, ?_, ?_⟩
      · intro j hj
        cases j with
        | zero => exact hrow
        | succ j => exact hrows j (Nat.lt_of_succ_lt_succ hj)
      · rw [hobjects', hobjects, List.range_succ_eq_map, List.map_cons, List.map_map, List.append_assoc]
        rfl
      · rw [hwell', hwell, and_assoc, Nat.forall_lt_succ_left]
        rfl

/-- A loop that comes to the code for "done" over steps that can be written ends. -/
theorem exists_BuildJsonObject {n i : Nat} (hdone : (steps (i + n)).code = SQLITE_DONE)
    (hrows : ∀ j < n, (steps (i + j)).code ≠ SQLITE_DONE) (hwritten : ∀ j < n, (steps (i + j)).Written names)
    (jBuilder : JsonBuilder) : ∃ jBuilder', BuildJsonObject names steps (n + 1) i jBuilder = some jBuilder' := by
  induction n generalizing i jBuilder with
  | zero => exact ⟨jBuilder, if_pos hdone⟩
  | succ n ih =>
    have hplace : ∀ j, i + (j + 1) = i + 1 + j := fun j => by omega
    obtain ⟨jBuilder₁, harray⟩ := exists_BuildJsonArray (hwritten 0 n.succ_pos) jBuilder
    rw [hplace] at hdone
    obtain ⟨jBuilder', hrest⟩ := ih hdone (fun j hj => hplace j ▸ hrows (j + 1) (Nat.succ_lt_succ hj))
      (fun j hj => hplace j ▸ hwritten (j + 1) (Nat.succ_lt_succ hj)) jBuilder₁
    refine ⟨jBuilder', ?_⟩
    have hrow : (steps i).code ≠ SQLITE_DONE := hrows 0 n.succ_pos
    rw [BuildJsonObject, if_neg hrow]
    exact Option.bind_eq_some_iff.mpr ⟨jBuilder₁, harray, hrest⟩

/-- The query returns with one object for each row exactly if the first result that is no row
is "done", and the rows can be written. -/
theorem Query_returnsRows_iff (names : List String) (steps : Nat → StepResult) (doc : Option (List JRow)) (rows : Nat)
    (hsteps : ∀ i, (steps i).code = SQLITE_ROW ↔ i < rows) :
    ReturnsRows names steps doc rows ↔
      (steps rows).code = SQLITE_DONE ∧ ∀ i < rows, (steps i).Written names := by
  have hne : SQLITE_ROW ≠ SQLITE_DONE := by decide
  have hrow : ∀ i < rows, (steps i).code ≠ SQLITE_DONE := fun i hi hdone => hne (((hsteps i).mpr hi).symm.trans hdone)
  constructor
  · intro h
    obtain ⟨fuel, hquery⟩ := h
    rw [Query, if_neg (not_not.mpr rfl)] at hquery
    obtain ⟨jBuilder, hloop, hquery⟩ := Option.bind_eq_some_iff.mp hquery
    obtain ⟨n, hdone, -, hobjects, hwell⟩ := exists_done hloop
    simp only [Nat.zero_add] at hdone hobjects hwell
    obtain ⟨hwf, hdoc⟩ := Option.ite_none_right_eq_some.mp (Option.some.inj hquery)
    have hlength := congrArg List.length (hobjects.symm.trans (Option.some.inj hdoc))
    rw [List.nil_append, List.length_map, List.length_map, List.length_range, List.length_range] at hlength
    subst hlength
    exact ⟨hdone, (hwell.mp hwf).2⟩
  · intro h
    obtain ⟨hdone, hwritten⟩ := h
    have hplace : ∀ j, 0 + j = j := Nat.zero_add
    obtain ⟨jBuilder, hloop⟩ := @exists_BuildJsonObject names steps rows 0 (by rwa [hplace]) (by simpa only [hplace] using hrow)
      (by simpa only [hplace] using hwritten) ⟨[], true⟩
    obtain ⟨n, hdone', hrows, hobjects, hwell⟩ := exists_done hloop
    simp only [hplace] at hdone' hrows hobjects hwell
    have hn : n = rows := by
      rcases lt_trichotomy n rows with hlt | heq | hgt
      · exact absurd hdone' (hrow n hlt)
      · exact heq
      · exact absurd hdone (hrows rows hgt)
    subst hn
    refine ⟨n + 1, ?_⟩
    rw [Query, if_neg (not_not.mpr rfl), hloop]
    show some (if jBuilder.wellFormed = true then some jBuilder.objects else none) = _
    rw [if_pos (hwell.mpr ⟨trivial, hwritten⟩), hobjects]
    rfl

/-- A table of two rows. -/
theorem Query_returnsRows_two :
    ReturnsRows ["id"] (fun i => if i < 2 then ⟨SQLITE_ROW, [.integer i]⟩ else ⟨SQLITE_DONE, []⟩) none 2 := by
  refine (Query_returnsRows_iff ["id"] (fun i => if i < 2 then ⟨SQLITE_ROW, [.integer i]⟩ else ⟨SQLITE_DONE, []⟩) none 2
    fun i => ?_).mpr ⟨rfl, ?_⟩
  · by_cases hi : i < 2
    · simp [hi]
    · simp only [hi, if_false, iff_false]
      decide
  · intro i hi c hc
    simp only [hi, if_true, List.zip_cons_cons, List.zip_nil_right, List.mem_singleton] at hc
    subst hc
    rfl

def SQLITE_BUSY : Int := 5

/-- The database is locked by someone else, and stays so. -/
def locked (_ : Nat) : StepResult := ⟨SQLITE_BUSY, [.null]⟩

theorem not_ReturnsRows_locked : (∀ i, (locked i).code = SQLITE_ROW ↔ i < 0) ∧
    (∀ fuel doc, Query SQLITE_OK ["id"] locked fuel doc = none) ∧ ¬ReturnsRows ["id"] locked none 0 := by
  have hnone : ∀ fuel doc, Query SQLITE_OK ["id"] locked fuel doc = none := by
    intro fuel doc
    cases hloop : BuildJsonObject ["id"] locked fuel 0 ⟨[], true⟩ with
    | none =>
      rw [Query, hloop]
      rfl
    | some jBuilder =>
      obtain ⟨n, hdone, -⟩ := exists_done hloop
      exact absurd hdone (show SQLITE_BUSY ≠ SQLITE_DONE by decide)
  have hrow : SQLITE_BUSY ≠ SQLITE_ROW := by decide
  refine ⟨fun i => iff_of_false hrow i.not_lt_zero, hnone, fun h => ?_⟩
  obtain ⟨fuel, hquery⟩ := h
  rw [hnone] at hquery
  cases hquery

end Perception.Db
