import Perception.Cfg.Rows
import Perception.Cfg.Update

/-!
# The tables mirror the configuration

An update deletes one table and initialises all five. Initialising leaves a table that
has rows alone, and the values filed under a root node are that node alone whenever the
table functions return, so the other four tables stay as they are.
-/
namespace Perception.Cfg

set_option autoImplicit false

open Perception.Lib Perception.Db StateExcept

namespace CfgMng

/-- The table of the root node `r` holds exactly the serialisation of the node. -/
def MirrorsNode (s : CfgMng) (r : String) : Prop :=
  ∃ rows, IsSerialisation (columnsOf r) (s.m_jRuntimeSysCfg.get r) rows ∧ s.db.Holds r rows

def Mirrors (s : CfgMng) : Prop := ∀ r ∈ rootNodes, s.MirrorsNode r

/-- The rows that a table function makes are those of the root node. -/
theorem Parsed.nodeRows_of_tableRows {s : CfgMng} (hs : s.Parsed) {r : String} (hr : r ∈ rootNodes)
    {rows : List Row} (h : tableRows s.m_mapRuntimeSysCfg r = .ok rows) :
    nodeRows (columnsOf r) (s.m_jRuntimeSysCfg.get r) = .ok rows := by
  obtain ⟨-, hnode⟩ := ParseJson_ok hs r hr
  have hlist : s.m_mapRuntimeSysCfg.getList r = [s.m_jRuntimeSysCfg.get r] := by
    rw [← hnode, CfgObjMap.nodesAt, List.filter_eq_self.mpr]
    intro j hj
    rw [not_isEntry_of_rows h j hj]
    rfl
  rwa [tableRows, hlist, collect_singleton] at h

/-- A table that mirrors an unchanged node is left alone. -/
theorem filled_of_holds (rows : List Row) : Sqlite.filled (some rows) rows = rows := by
  cases rows <;> rfl

/-- **One update.** The table of the node mirrors the new node, no other table changes, and
all tables mirror the configuration again. -/
theorem mirrors_update {exFactory : CfgObjMap} (hdel : delAttached exFactory = true) {s s' : CfgMng}
    (hs : s.Mirrors) {r : String} (hr : r ∈ rootNodes) {jSubNode : Json}
    (h : RuntimeSysCfgUpdate exFactory r jSubNode s = .ok ⟨⟩ s') :
    s'.MirrorsNode r ∧
      (∀ t, t ≠ r → SortedMap.find? s'.db.tables t = SortedMap.find? s.db.tables t) ∧ s'.Mirrors := by
  obtain ⟨vs, s₁, s₂, -, hfind, hparsed, hdb, -, hupd⟩ := RuntimeSysCfgUpdate_ok h
  obtain ⟨v, hv⟩ := getFirst_of_delAttached hdel
  have hrows := rows_of_updateDb hv hparsed hupd
  have hstate := stateOf_updateDb hv r hparsed
  rw [hupd, reached_of_rows tableOrder hrows, hdb] at hstate
  obtain rfl : s' = _ := hstate
  have hnew : ∀ t ∈ rootNodes, IsSerialisation (columnsOf t) (s₂.m_jRuntimeSysCfg.get t)
      (rowsToWrite s₂.m_mapRuntimeSysCfg t) := fun t ht =>
    isSerialisation_of_nodeRows (columnsOf_name_ne t) (hparsed.nodeRows_of_tableRows ht (hrows t (mem_tableOrder.mpr ht)))
  have htables : ∀ t, SortedMap.find?
      (initTables s₂.m_mapRuntimeSysCfg tableOrder (cleared exFactory r s.db)).tables t =
        if t ∈ tableOrder then some (Sqlite.filled (SortedMap.find? (cleared exFactory r s.db).tables t)
          (rowsToWrite s₂.m_mapRuntimeSysCfg t))
        else SortedMap.find? (cleared exFactory r s.db).tables t :=
    find?_initTables _ _ tableOrder_nodup _
  have hself : SortedMap.find?
      (initTables s₂.m_mapRuntimeSysCfg tableOrder (cleared exFactory r s.db)).tables r =
        some (rowsToWrite s₂.m_mapRuntimeSysCfg r) := by
    obtain ⟨old, -, hold⟩ := hs r hr
    rw [htables, if_pos (mem_tableOrder.mpr hr), find?_cleared, if_pos ⟨hdel, rfl⟩, hold]
    rfl
  have hother : ∀ t, t ≠ r → SortedMap.find?
      (initTables s₂.m_mapRuntimeSysCfg tableOrder (cleared exFactory r s.db)).tables t =
        SortedMap.find? s.db.tables t := by
    intro t hne
    have hclear : SortedMap.find? (cleared exFactory r s.db).tables t = SortedMap.find? s.db.tables t :=
      (find?_cleared _ _ _ _).trans (if_neg fun h => hne h.2)
    rw [htables, hclear]
    split
    · next ht =>
      have ht := mem_tableOrder.mp ht
      obtain ⟨old, hold, hholds⟩ := hs t ht
      have hget : s₂.m_jRuntimeSysCfg.get t = s.m_jRuntimeSysCfg.get t := by
        rw [Json.get, Json.get, hfind, if_neg hne]
      -- the node is the one before, and so are its rows
      have hsame : rowsToWrite s₂.m_mapRuntimeSysCfg t = old := by
        have hser := hnew t ht
        rw [hget] at hser
        exact hser.unique hold
      rw [hsame, hholds, filled_of_holds]
    · rfl
  refine ⟨⟨_, hnew r hr, hself⟩, hother, fun t ht => ?_⟩
  by_cases hne : t = r
  · subst hne
    exact ⟨_, hnew t ht, hself⟩
  · obtain ⟨old, hold, hholds⟩ := hs t ht
    refine ⟨old, ?_, (hother t hne).trans hholds⟩
    show IsSerialisation (columnsOf t) (s₂.m_jRuntimeSysCfg.get t) old
    rw [Json.get, hfind, if_neg hne]
    exact hold

/-- A sequence of updates of root nodes. -/
def updates (exFactory : CfgObjMap) (us : List (String × Json)) : Cmd Unit :=
  us.forM fun u => RuntimeSysCfgUpdate exFactory u.1 u.2

theorem mirrors_updates {exFactory : CfgObjMap} (hdel : delAttached exFactory = true)
    {us : List (String × Json)} (hroots : ∀ u ∈ us, u.1 ∈ rootNodes) {s s' : CfgMng} (hs : s.Mirrors)
    (h : updates exFactory us s = .ok ⟨⟩ s') : s'.Mirrors :=
  forM_invariant us (fun u hu _ _ hs h => (mirrors_update hdel hs (hroots u hu) h).2.2) hs h

/-- **The tables mirror the configuration** after every update of a run that returns: the
table of the updated node holds its rows, once and in order, and no other table changes. -/
theorem tables_after_updates {exFactory : CfgObjMap} (hdel : delAttached exFactory = true)
    {us : List (String × Json)} (hroots : ∀ u ∈ us, u.1 ∈ rootNodes) {s s₁ : CfgMng} (hs : s.Mirrors)
    (hrun : updates exFactory us s = .ok ⟨⟩ s₁) {r : String} (hr : r ∈ rootNodes) {jSubNode : Json}
    {s₂ : CfgMng} (h : RuntimeSysCfgUpdate exFactory r jSubNode s₁ = .ok ⟨⟩ s₂) :
    s₂.MirrorsNode r ∧
      (∀ t, t ≠ r → SortedMap.find? s₂.db.tables t = SortedMap.find? s₁.db.tables t) ∧ s₂.Mirrors :=
  mirrors_update hdel (mirrors_updates hdel hroots hs hrun) hr h

/-- The entry `SqliteSvr` of the shipped configuration. -/
def sqliteEntry : Json :=
  .object [("desc", .string ""), ("enable", .string "0"), ("idx", .string "1"), ("ip", .string "127.0.0.1"),
    ("params", .object [("pwd", .string "123")]), ("port", .string "123"), ("type", .string "sqlitesvr")]

/-- The lookup map of the shipped configuration, at the one key that an update looks up. -/
def exFactorySqlite : CfgObjMap := [(strDbNode ++ strDbSqliteNode, [sqliteEntry])]

theorem delAttached_exFactorySqlite : delAttached exFactorySqlite = true := by decide +kernel

def sqliteNode : Json := .object [(strDbSqliteNode, .array [sqliteEntry])]

/-- The row of this entry. -/
def sqliteRow : Row :=
  [("node", "SqliteSvr"), ("type", "sqlitesvr"), ("ip", "127.0.0.1"), ("port", "123"), ("params", "pwd:123|&"),
    ("enable", "0"), ("idx", "1"), ("desc", "")]

/-- Nothing configured but the database; the node `Alg` is missing. -/
def databaseOnly : CfgMng where
  m_jRuntimeSysCfg := .object [(strAppNode, .object []), (strDbNode, sqliteNode), (strTaskNode, .null),
    (strTransferNode, .null)]
  m_mapRuntimeSysCfg := []
  db := ⟨[(strAlgNode, []), (strAppNode, []), (strDbNode, [sqliteRow]),
    (strTaskNode, []), (strTransferNode, [])], false⟩

theorem isSerialisation_sqliteRow : IsSerialisation dbOrTransferColumns sqliteNode [sqliteRow] := by
  refine .cons ⟨_, ?_, rfl⟩ .nil
  refine .cons ⟨"sqlitesvr", rfl, rfl⟩ (.cons ⟨"127.0.0.1", rfl, rfl⟩ (.cons ⟨"123", rfl, rfl⟩ (.cons ?_ ?_)))
  · exact ⟨"pwd:123|&", ⟨[("pwd", "123")], rfl, rfl⟩, rfl⟩
  · exact .cons ⟨"0", rfl, rfl⟩ (.cons ⟨"1", rfl, rfl⟩ (.cons ⟨"", rfl, rfl⟩ .nil))

theorem mirrors_databaseOnly : databaseOnly.Mirrors := by
  unfold Mirrors rootNodes
  simp only [List.forall_mem_cons]
  exact ⟨⟨[], .nil, rfl⟩, ⟨[], .nil, rfl⟩, ⟨_, isSerialisation_sqliteRow, rfl⟩, ⟨[], .nil, rfl⟩, ⟨[], .nil, rfl⟩,
    by simp⟩

/-- The entry `SouthTcpSvr` of the shipped configuration, as a new entry. -/
def tcpServerNode : Json :=
  .object [("SouthTcpSvr", .array [.object [("desc", .string "tcp server"), ("enable", .string "1"),
    ("idx", .string "-1"), ("ip", .string "127.0.0.1"), ("params", .object [("threads", .string "50")]),
    ("port", .string "12316"), ("type", .string "tcpsrv")]])]

/-- The row of the server, which has got an index. -/
def tcpServerRow : Row :=
  [("node", "SouthTcpSvr"), ("type", "tcpsrv"), ("ip", "127.0.0.1"), ("port", "12316"), ("params", "threads:50|&"),
    ("enable", "1"), ("idx", "1"), ("desc", "tcp server")]

/-- A server is configured, then the database is configured again. -/
theorem tables_after_tcp_server : ∃ s₁ s₂,
    updates exFactorySqlite [(strTransferNode, tcpServerNode)] databaseOnly = .ok ⟨⟩ s₁ ∧
      RuntimeSysCfgUpdate exFactorySqlite strDbNode sqliteNode s₁ = .ok ⟨⟩ s₂ ∧
      SortedMap.find? s₂.db.tables strTransferNode = some [tcpServerRow] ∧ s₂.MirrorsNode strDbNode ∧
      (∀ t, t ≠ strDbNode → SortedMap.find? s₂.db.tables t = SortedMap.find? s₁.db.tables t) ∧ s₂.Mirrors := by
  have hroots : ∀ u ∈ [(strTransferNode, tcpServerNode)], u.1 ∈ rootNodes := by
    rw [List.forall_mem_singleton]
    decide
  have hrun : ∃ s₁ s₂, updates exFactorySqlite [(strTransferNode, tcpServerNode)] databaseOnly = .ok ⟨⟩ s₁ ∧
      RuntimeSysCfgUpdate exFactorySqlite strDbNode sqliteNode s₁ = .ok ⟨⟩ s₂ ∧
      SortedMap.find? s₂.db.tables strTransferNode = some [tcpServerRow] := ⟨_, _, rfl, rfl, rfl⟩
  obtain ⟨s₁, s₂, h₁, h₂, hrow⟩ := hrun
  exact ⟨s₁, s₂, h₁, h₂, hrow,
    tables_after_updates delAttached_exFactorySqlite hroots mirrors_databaseOnly h₁ (by decide) h₂⟩

end CfgMng

end Perception.Cfg
