import Perception.Db.SqliteDbSvr

/-!
# Initialising all tables

`DBTableOpt` from the runtime configuration is a loop over the tables that ends at the
first whose rows cannot be made. A table that has rows keeps them.
-/
namespace Perception.Db

set_option autoImplicit false

open Perception.Lib Perception.Cfg StateExcept

/-- The tables in the order in which `DBTableOpt` initialises them. -/
def tableOrder : List String := [strAppNode, strTaskNode, strAlgNode, strTransferNode, strDbNode]

theorem mem_tableOrder {r : String} : r ∈ tableOrder ↔ r ∈ rootNodes := by
  simp only [tableOrder, rootNodes, List.mem_cons, List.not_mem_nil, or_false]
  tauto

theorem tableOrder_nodup : tableOrder.Nodup := by decide

/-- The rows that a table function makes of what is configured. -/
def tableRows (m : CfgObjMap) (t : String) : Except Exn (List Row) :=
  collect (nodeRows (columnsOf t)) (m.getList t)

/-- The rows that a table function passes on. -/
def rowsToWrite (m : CfgObjMap) (t : String) : List Row :=
  match tableRows m t with
  | .ok rows => rows
  | .error _ => []

/-- The tables that are reached, among these. -/
def reached (m : CfgObjMap) (ts : List String) : List String :=
  ts.takeWhile fun t => (tableRows m t).isOk

def initTables (m : CfgObjMap) (ts : List String) (db : Sqlite) : Sqlite :=
  ts.foldl (fun db t => db.InitDb t (some (rowsToWrite m t))) db

/-- The table function of a root node, from the runtime configuration. -/
def initTable (m : CfgObjMap) (t : String) : EStateM Exn Sqlite Unit :=
  tableDbOpt (columnsOf t) t (m.getList t)

/-- A table function on a root node that is configured. -/
theorem initTable_eq {m : CfgObjMap} {t : String} (hne : m.getList t ≠ []) (db : Sqlite) :
    initTable m t db =
      match tableRows m t with
      | .ok _ => .ok ⟨⟩ (db.InitDb t (some (rowsToWrite m t)))
      | .error e => .error e db := by
  have hempty : ¬(m.getList t).isEmpty = true := fun h => hne (List.isEmpty_iff.mp h)
  rw [initTable, tableDbOpt, if_neg hempty]
  unfold rowsToWrite tableRows
  cases collect (nodeRows (columnsOf t)) (m.getList t) <;> rfl

theorem initTable_of_rows {m : CfgObjMap} {t : String} (hne : m.getList t ≠ []) {rows : List Row}
    (hrows : tableRows m t = .ok rows) (db : Sqlite) :
    initTable m t db = .ok ⟨⟩ (db.InitDb t (some (rowsToWrite m t))) := by
  rw [initTable_eq hne, hrows]

theorem initTable_of_error {m : CfgObjMap} {t : String} (hne : m.getList t ≠ []) {e : Exn}
    (hrows : tableRows m t = .error e) (db : Sqlite) : initTable m t db = .error e db := by
  rw [initTable_eq hne, hrows]

theorem reached_cons_of_rows {m : CfgObjMap} {t : String} (ts : List String) {rows : List Row}
    (hrows : tableRows m t = .ok rows) : reached m (t :: ts) = t :: reached m ts := by
  rw [reached, List.takeWhile_cons_of_pos (by rw [hrows]; rfl)]
  rfl

theorem reached_cons_of_error {m : CfgObjMap} {t : String} (ts : List String) {e : Exn}
    (hrows : tableRows m t = .error e) : reached m (t :: ts) = [] := by
  rw [reached, List.takeWhile_cons_of_neg (by rw [hrows]; exact Bool.false_ne_true)]

/-- The database that the table functions leave, whether or not one throws. -/
theorem stateOf_forM_initTable {m : CfgObjMap} (ts : List String) (hne : ∀ t ∈ ts, m.getList t ≠ [])
    (db : Sqlite) : stateOf (ts.forM (initTable m) db) = initTables m (reached m ts) db := by
  induction ts generalizing db with
  | nil => rfl
  | cons t ts ih =>
    obtain ⟨ht, hts⟩ := List.forall_mem_cons.mp hne
    cases hrows : tableRows m t with
    | error e =>
      rw [forM_cons_of_error ts (initTable_of_error ht hrows db), reached_cons_of_error ts hrows]
      rfl
    | ok rows =>
      rw [forM_cons_of_ok ts (initTable_of_rows ht hrows db), reached_cons_of_rows ts hrows, ih hts]
      rfl

/-- When all table functions return, all rows were made. -/
theorem rows_of_forM_initTable {m : CfgObjMap} (ts : List String) (hne : ∀ t ∈ ts, m.getList t ≠ [])
    {db db' : Sqlite} (h : ts.forM (initTable m) db = .ok ⟨⟩ db') :
    ∀ t ∈ ts, tableRows m t = .ok (rowsToWrite m t) := by
  induction ts generalizing db with
  | nil => simp
  | cons t ts ih =>
    obtain ⟨ht, hts⟩ := List.forall_mem_cons.mp hne
    obtain ⟨d, hd, h⟩ := forM_cons_eq_ok.mp h
    refine List.forall_mem_cons.mpr ⟨?_, ih hts h⟩
    cases hrows : tableRows m t with
    | error e =>
      rw [initTable_of_error ht hrows] at hd
      cases hd
    | ok rows => rw [rowsToWrite, hrows]

/-- When all rows can be made, the table functions return. -/
theorem forM_initTable_of_rows {m : CfgObjMap} (ts : List String) (hne : ∀ t ∈ ts, m.getList t ≠ [])
    (h : ∀ t ∈ ts, tableRows m t = .ok (rowsToWrite m t)) (db : Sqlite) :
    ts.forM (initTable m) db = .ok ⟨⟩ (initTables m ts db) := by
  induction ts generalizing db with
  | nil => rfl
  | cons t ts ih =>
    obtain ⟨ht, hts⟩ := List.forall_mem_cons.mp hne
    obtain ⟨hrows, hs⟩ := List.forall_mem_cons.mp h
    exact (forM_cons_of_ok ts (initTable_of_rows ht hrows db)).trans (ih hts hs _)

theorem reached_of_rows {m : CfgObjMap} (ts : List String)
    (h : ∀ t ∈ ts, tableRows m t = .ok (rowsToWrite m t)) : reached m ts = ts := by
  induction ts with
  | nil => rfl
  | cons t ts ih =>
    obtain ⟨ht, hts⟩ := List.forall_mem_cons.mp h
    rw [reached_cons_of_rows ts ht, ih hts]

/-- What the tables hold after the initialisation of some of them. -/
theorem find?_initTables (m : CfgObjMap) (ts : List String) (hts : ts.Nodup) (db : Sqlite) (t : String) :
    SortedMap.find? (initTables m ts db).tables t =
      if t ∈ ts then some (Sqlite.filled (SortedMap.find? db.tables t) (rowsToWrite m t))
      else SortedMap.find? db.tables t := by
  induction ts generalizing db with
  | nil => rw [if_neg List.not_mem_nil]; rfl
  | cons u ts ih =>
    obtain ⟨hu, hts⟩ := List.nodup_cons.mp hts
    have hstep : initTables m (u :: ts) db = initTables m ts (db.InitDb u (some (rowsToWrite m u))) := rfl
    rw [hstep, ih hts, Sqlite.find?_InitDb]
    by_cases htu : t = u
    · subst htu
      rw [if_neg hu, if_pos rfl, if_pos List.mem_cons_self]
    · simp only [List.mem_cons, htu, false_or, if_false]

theorem DbOrTransferTableOpt_eq (m : CfgObjMap) {r : String} (h : r = strTransferNode ∨ r = strDbNode) :
    DbOrTransferTableOpt m r = tableDbOpt (columnsOf r) r (m.getList r) := by
  have hcols : columnsOf r = dbOrTransferColumns := by
    rcases h with rfl | rfl
    · rw [columnsOf, if_neg (by decide), if_neg (by decide), if_neg (by decide)]
    · rw [columnsOf, if_neg (by decide), if_neg (by decide), if_neg (by decide)]
  rw [hcols, DbOrTransferTableOpt]

/-- `DBTableOpt` from the runtime configuration is the loop over the tables. -/
theorem DBTableOpt_runtime (exFactory m : CfgObjMap) :
    DBTableOpt exFactory m false = tableOrder.forM (initTable m) := by
  simp only [DBTableOpt, Bool.false_eq_true, if_false, DbOrTransferTableOpt_eq m (.inl rfl),
    DbOrTransferTableOpt_eq m (.inr rfl)]
  rfl

end Perception.Db
