import Perception.Cfg.Persistence

/-!
# Loading all tables

Loading a table files the entry of each row under the name of its sub-node. The rows that
were written come in the order of these names, so filing them gives back the sub-nodes,
and the whole configuration is read back exactly when every column is.
-/
namespace Perception.Cfg

set_option autoImplicit false

open Perception.Lib Perception.Db StateExcept

/-- The entry of a row goes to the end of the list of its sub-node. -/
def fileRow (m : List (String × Json)) (p : String × Json) : List (String × Json) :=
  SortedMap.insert m p.1 (.array (((SortedMap.find? m p.1).getD .null).elems ++ [p.2]))

def fileRows (m ps : List (String × Json)) : List (String × Json) := ps.foldl fileRow m

/-- The sub-nodes are lists. -/
def Lists (m : List (String × Json)) : Prop := ∀ e ∈ m, ∃ xs, e.2 = .array xs

/-- A root node with these sub-nodes, which is missing while there are none. -/
def nodeOf : List (String × Json) → Option Json
  | [] => none
  | e :: m => some (.object (e :: m))

theorem Lists.fileRow {m : List (String × Json)} (h : Lists m) (p : String × Json) : Lists (fileRow m p) := by
  intro e he
  rcases SortedMap.mem_insert he with rfl | he
  · exact ⟨_, rfl⟩
  · exact h e he

theorem nodeOf_fileRow (m : List (String × Json)) (p : String × Json) :
    nodeOf (fileRow m p) = some (.object (fileRow m p)) := by
  cases h : fileRow m p with
  | nil =>
    have hself := SortedMap.find?_insert_self m p.1 (.array (((SortedMap.find? m p.1).getD .null).elems ++ [p.2]))
    change SortedMap.find? (fileRow m p) p.1 = _ at hself
    rw [h] at hself
    cases hself
  | cons e m' => rfl

/-- Appending to a list of a node. -/
theorem onPath_push_back {m : List (String × Json)} (hm : Lists m) (p : String × Json) :
    Json.onPath (push_back p.2) [.key p.1] ((nodeOf m).getD .null) = (.ok (), .object (fileRow m p)) := by
  cases m with
  | nil => rfl
  | cons e m =>
    show (let (r, v) := push_back p.2 ((SortedMap.find? (e :: m) p.1).getD .null)
      (r, Json.object (SortedMap.insert (e :: m) p.1 v))) = _
    unfold fileRow
    cases hf : SortedMap.find? (e :: m) p.1 with
    | none => rfl
    | some v =>
      obtain ⟨xs, hxs⟩ := hm _ (SortedMap.mem_of_find? hf)
      obtain rfl : v = .array xs := hxs
      rw [Option.getD_some, Json.elems_array]
      rfl

namespace CfgMng

/-- The root node `r` consists of these sub-nodes. -/
structure Filed (s : CfgMng) (r : String) (m : List (String × Json)) : Prop where
  document : s.m_jRuntimeSysCfg.Document
  node : s.m_jRuntimeSysCfg.find? r = nodeOf m
  lists : Lists m

/-- One turn of the loop over the rows. -/
theorem saveRow_filed {s : CfgMng} {r : String} {m : List (String × Json)} (h : s.Filed r m) (row : Row) :
    ∃ j, saveRow r row s = .ok ⟨⟩ { s with m_jRuntimeSysCfg := j } ∧
      Filed { s with m_jRuntimeSysCfg := j } r (fileRow m (loadRow row)) ∧
      ∀ r', r' ≠ r → j.find? r' = s.m_jRuntimeSysCfg.find? r' := by
  have hget : s.m_jRuntimeSysCfg.get r = (nodeOf m).getD .null := by rw [Json.get, h.node]
  have hpath := h.document.onPath_key (push_back (loadRow row).2) r [.key (loadRow row).1]
  rw [hget, onPath_push_back h.lists] at hpath
  refine ⟨_, onCfg_of_ok hpath, ⟨h.document.put _ _, ?_, h.lists.fileRow _⟩, fun r' hne => ?_⟩
  · exact (h.document.find?_put _ _ _).trans ((if_pos rfl).trans (nodeOf_fileRow m _).symm)
  · exact (h.document.find?_put _ _ _).trans (if_neg hne)

/-- The loop over the rows of a table. -/
theorem forM_saveRow (rows : List Row) {s : CfgMng} {r : String} {m : List (String × Json)} (h : s.Filed r m) :
    ∃ j, rows.forM (saveRow r) s = .ok ⟨⟩ { s with m_jRuntimeSysCfg := j } ∧
      Filed { s with m_jRuntimeSysCfg := j } r (fileRows m (rows.map loadRow)) ∧
      ∀ r', r' ≠ r → j.find? r' = s.m_jRuntimeSysCfg.find? r' := by
  induction rows generalizing s m with
  | nil => exact ⟨_, rfl, h, fun _ _ => rfl⟩
  | cons row rows ih =>
    obtain ⟨j₁, hrow, hfiled, hother₁⟩ := saveRow_filed h row
    obtain ⟨j₂, hrows, hfiled₂, hother₂⟩ := ih hfiled
    exact ⟨j₂, (forM_cons_of_ok rows hrow).trans hrows, hfiled₂,
      fun r' hne => (hother₂ r' hne).trans (hother₁ r' hne)⟩

/-- The factory configuration names the database that is read. -/
def Readable (exFactory : CfgObjMap) : Prop :=
  ∃ v t, exFactory.getFirst (strDbNode ++ strDbSqliteNode) = some v ∧ v.attr strAttriType = .ok t

theorem LoadRuntimeSysCfgTableInDb_eq {exFactory : CfgObjMap} (hread : Readable exFactory) (r : String)
    (s : CfgMng) : LoadRuntimeSysCfgTableInDb exFactory r s = (s.db.select r).forM (saveRow r) s := by
  obtain ⟨v, t, hv, ht⟩ := hread
  rw [LoadRuntimeSysCfgTableInDb, hv]
  show (fromExcept (v.attr strAttriType) >>= fun _ => _) s = _
  rw [ht]
  rfl

/-- What a table becomes. -/
def reloaded (rows : List Row) : Option Json := nodeOf (fileRows [] (rows.map loadRow))

/-- The tables are loaded one after the other, each into its own root node. -/
theorem forM_LoadRuntimeSysCfgTableInDb {exFactory : CfgObjMap} (hread : Readable exFactory) (ts : List String)
    (hts : ts.Nodup) {s : CfgMng} (hdoc : s.m_jRuntimeSysCfg.Document)
    (hnew : ∀ t ∈ ts, s.m_jRuntimeSysCfg.find? t = none) :
    ∃ j, ts.forM (LoadRuntimeSysCfgTableInDb exFactory) s = .ok ⟨⟩ { s with m_jRuntimeSysCfg := j } ∧
      (∀ t ∈ ts, j.find? t = reloaded (s.db.select t)) ∧
      ∀ t, t ∉ ts → j.find? t = s.m_jRuntimeSysCfg.find? t := by
  induction ts generalizing s with
  | nil => exact ⟨_, rfl, by simp, fun _ _ => rfl⟩
  | cons t ts ih =>
    obtain ⟨hnot, hts⟩ := List.nodup_cons.mp hts
    obtain ⟨ht, hnew⟩ := List.forall_mem_cons.mp hnew
    obtain ⟨j₁, hload, hfiled, hother₁⟩ := forM_saveRow (s.db.select t) (m := []) ⟨hdoc, ht, by simp [Lists]⟩
    have hnew₁ : ∀ t' ∈ ts, j₁.find? t' = none := fun t' ht' =>
      (hother₁ t' fun heq => hnot (heq ▸ ht')).trans (hnew t' ht')
    obtain ⟨j₂, hloads, hmem, hother₂⟩ := ih hts hfiled.document hnew₁
    refine ⟨j₂, (forM_cons_of_ok ts ((LoadRuntimeSysCfgTableInDb_eq hread t s).trans hload)).trans hloads,
      List.forall_mem_cons.mpr ⟨(hother₂ t hnot).trans hfiled.node, hmem⟩, fun t' ht' => ?_⟩
    obtain ⟨hne, hnot'⟩ := not_or.mp fun h => ht' (List.mem_cons.mpr h)
    exact (hother₂ t' hnot').trans (hother₁ t' hne)

end CfgMng

/-- More entries of the sub-node with the largest name. -/
theorem fileRows_last {m : List (String × Json)} {k : String} (hm : ∀ e ∈ m, e.1 < k) (xs ys : List Json) :
    fileRows (m ++ [(k, .array ys)]) (xs.map fun x => (k, x)) = m ++ [(k, .array (ys ++ xs))] := by
  induction xs generalizing ys with
  | nil => rw [List.append_nil]; rfl
  | cons x xs ih =>
    have hfind : SortedMap.find? (m ++ [(k, Json.array ys)]) k = some (.array ys) := by
      rw [← SortedMap.insert_append_new (.array ys) hm, SortedMap.find?_insert_self]
    have hrow : fileRow (m ++ [(k, .array ys)]) (k, x) = m ++ [(k, .array (ys ++ [x]))] := by
      rw [fileRow, hfind, Option.getD_some, Json.elems_array, SortedMap.insert_append_last _ _ hm]
    rw [List.map_cons, fileRows, List.foldl_cons, hrow]
    show fileRows _ _ = _
    rw [ih, List.append_assoc]
    rfl

/-- The entries of a new sub-node with a name above all others. -/
theorem fileRows_new {m : List (String × Json)} {k : String} (hm : ∀ e ∈ m, e.1 < k) (x : Json)
    (xs : List Json) :
    fileRows m ((x :: xs).map fun x => (k, x)) = m ++ [(k, .array (x :: xs))] := by
  have hnone := SortedMap.find?_of_forall_lt hm
  have hrow : fileRow m (k, x) = m ++ [(k, .array [x])] := by
    rw [fileRow, hnone, SortedMap.insert_append_new _ hm]
    rfl
  rw [List.map_cons, fileRows, List.foldl_cons, hrow]
  exact fileRows_last hm xs [x]

/-- Sub-nodes in the order of their names, filed entry by entry. -/
theorem fileRows_groups (gs : List (String × List Json)) (m : List (String × Json))
    (hgs : SortedMap.Sorted gs) (hm : ∀ e ∈ m, ∀ g ∈ gs, e.1 < g.1) :
    fileRows m (gs.flatMap fun g => g.2.map fun x => (g.1, x)) =
      m ++ (gs.filter (!·.2.isEmpty)).map fun g => (g.1, .array g.2) := by
  induction gs generalizing m with
  | nil => rw [List.filter_nil, List.map_nil, List.append_nil]; rfl
  | cons g gs ih =>
    obtain ⟨hlt, hrest⟩ := List.pairwise_cons.mp hgs
    have hmg : ∀ e ∈ m, e.1 < g.1 := fun e he => hm e he g List.mem_cons_self
    have hms : ∀ e ∈ m, ∀ g' ∈ gs, e.1 < g'.1 := fun e he g' hg' => hm e he g' (List.mem_cons_of_mem g hg')
    rw [List.flatMap_cons, fileRows, List.foldl_append]
    show fileRows (fileRows m _) _ = _
    obtain ⟨k, xs⟩ := g
    cases xs with
    | nil => exact ih m hrest hms
    | cons x xs =>
      have hnext : ∀ e ∈ m ++ [(k, Json.array (x :: xs))], ∀ g' ∈ gs, e.1 < g'.1 := by
        intro e he g' hg'
        rcases List.mem_append.mp he with he | he
        · exact hms e he g' hg'
        · obtain rfl := List.mem_singleton.mp he
          exact hlt g' hg'
      rw [fileRows_new hmg, ih _ hrest hnext, List.append_assoc]
      rfl

theorem entries_object (m : List (String × Json)) :
    entries (.object m) = m.flatMap fun e => e.2.elems.map fun x => (e.1, x) := by
  show (m.map fun e => (some e.1, e.2)).flatMap _ = _
  rw [List.flatMap_map]
  rfl

/-- Filed sub-nodes have the entries that were filed. -/
theorem entries_groups (gs : List (String × List Json)) :
    entries (.object ((gs.filter (!·.2.isEmpty)).map fun g => (g.1, .array g.2))) =
      gs.flatMap fun g => g.2.map fun x => (g.1, x) := by
  rw [entries_object, List.flatMap_map]
  induction gs with
  | nil => rfl
  | cons g gs ih =>
    obtain ⟨k, xs⟩ := g
    cases xs with
    | nil => exact ih
    | cons x xs =>
      rw [List.filter_cons_of_pos (p := fun g : String × List Json => !g.2.isEmpty) rfl, List.flatMap_cons,
        List.flatMap_cons, ih, Json.elems_array]

theorem entries_nodeOf (m : List (String × Json)) : entries ((nodeOf m).getD .null) = entries (.object m) := by
  cases m <;> rfl

/-- Nothing is filed under other names. -/
theorem name_mem_fileRows {m ps : List (String × Json)} {e : String × Json} (he : e ∈ fileRows m ps) :
    e.1 ∈ m.map Prod.fst ∨ e.1 ∈ ps.map Prod.fst := by
  induction ps generalizing m with
  | nil => exact .inl (List.mem_map_of_mem he)
  | cons p ps ih =>
    rcases ih he with hm | hps
    · obtain ⟨e', he', heq⟩ := List.mem_map.mp hm
      rw [← heq]
      rcases SortedMap.mem_insert he' with rfl | he'
      · exact .inr List.mem_cons_self
      · exact .inl (List.mem_map_of_mem he')
    · exact .inr (List.mem_cons_of_mem _ hps)

/-- What the columns hold of a root node: of each entry, in order, the name of its
sub-node and the values of its columns. -/
def columnView (cols : List Column) (node : Json) : List (String × List (Option Json)) :=
  (entries node).map fun e => (e.1, cols.map fun c => e.2.find? c.name)

/-- The names of the sub-nodes are C strings, and the columns of all entries are clean. -/
def CleanNode (cols : List Column) (node : Json) : Prop :=
  ∀ e ∈ entries node, NulFree e.1.toList ∧ ∀ c ∈ cols, CleanColumn e.2 c

instance (cols : List Column) (node : Json) : Decidable (CleanNode cols node) :=
  inferInstanceAs (Decidable (∀ e ∈ entries node, NulFree e.1.toList ∧ ∀ c ∈ cols, CleanColumn e.2 c))

/-- Only an object has rows. -/
theorem items_of_nodeRows {cols : List Column} {node : Json} {rows : List Row} (h : nodeRows cols node = .ok rows) :
    node.items = [] ∨ ∃ m, node = .object m := by
  have hkey : ∀ it ∈ node.items, ∃ k, it.1 = some k := by
    intro it hit
    obtain ⟨ys, hys⟩ := ok_of_collect h it hit
    obtain ⟨name, hname, -⟩ := except_bind_eq_ok.mp hys
    cases hk : it.1 with
    | none =>
      rw [hk] at hname
      cases hname
    | some k => exact ⟨k, rfl⟩
  cases node with
  | object m => exact .inr ⟨m, rfl⟩
  | null => exact .inl rfl
  | array xs =>
    cases xs with
    | nil => exact .inl rfl
    | cons x xs =>
      obtain ⟨k, hk⟩ := hkey (none, x) List.mem_cons_self
      cases hk
  | _ =>
    obtain ⟨k, hk⟩ := hkey _ List.mem_cons_self
    cases hk

/-- The entries of a node with rows, sub-node by sub-node in the order of the names. -/
theorem exists_groups {cols : List Column} {node : Json} (hwf : node.WellFormed) {rows : List Row}
    (h : nodeRows cols node = .ok rows) :
    ∃ gs : List (String × List Json), SortedMap.Sorted gs ∧
      entries node = gs.flatMap fun g => g.2.map fun x => (g.1, x) := by
  rcases items_of_nodeRows h with hnil | ⟨m, rfl⟩
  · refine ⟨[], SortedMap.sorted_nil, ?_⟩
    rw [entries, hnil]
    rfl
  · have hsorted : SortedMap.Sorted (m.map fun e => (e.1, e.2.elems)) := List.pairwise_map.mpr hwf.sorted
    refine ⟨_, hsorted, ?_⟩
    rw [entries_object, List.flatMap_map]

/-- When the names survive, the table gives back all entries. -/
theorem entries_reloaded {cols : List Column} (hfit : ∀ c ∈ cols, Fits c = true) {node : Json}
    (hwf : node.WellFormed) {rows : List Row} (h : nodeRows cols node = .ok rows)
    (hnames : ∀ e ∈ entries node, NulFree e.1.toList) :
    entries ((CfgMng.reloaded rows).getD .null) = (entries node).map fun e => (e.1, loadedEntry cols e.2) := by
  obtain ⟨gs, hgs, hentries⟩ := exists_groups hwf h
  have hload : rows.map loadRow = (entries node).map fun e => (e.1, loadedEntry cols e.2) := by
    rw [(nodeRows_ok h).2, List.map_map]
    refine List.map_congr_left fun e he => ?_
    rw [Function.comp_apply, loadRow_entryRow hfit, c_str_eq_self.mpr (hnames e he)]
  have hloaded : (entries node).map (fun e => (e.1, loadedEntry cols e.2)) =
      (gs.map fun g => (g.1, g.2.map (loadedEntry cols))).flatMap fun g => g.2.map fun x => (g.1, x) := by
    rw [hentries, List.map_flatMap, List.flatMap_map]
    simp only [List.map_map, Function.comp_def]
  have hsorted : SortedMap.Sorted (gs.map fun g => (g.1, g.2.map (loadedEntry cols))) :=
    List.pairwise_map.mpr hgs
  rw [CfgMng.reloaded, hload, hloaded, entries_nodeOf, fileRows_groups _ [] hsorted (by simp), List.nil_append,
    entries_groups]

/-- The names that are loaded are C strings. -/
theorem nulFree_reloaded {cols : List Column} (hfit : ∀ c ∈ cols, Fits c = true) {node : Json} {rows : List Row}
    (h : nodeRows cols node = .ok rows) :
    ∀ e ∈ entries ((CfgMng.reloaded rows).getD .null), NulFree e.1.toList := by
  intro e he
  rw [CfgMng.reloaded, entries_nodeOf, entries_object] at he
  obtain ⟨g, hg, he⟩ := List.mem_flatMap.mp he
  obtain ⟨x, -, rfl⟩ := List.mem_map.mp he
  rcases name_mem_fileRows hg with hnil | hname
  · cases hnil
  · rw [(nodeRows_ok h).2] at hname
    obtain ⟨p, hp, hpe⟩ := List.mem_map.mp hname
    obtain ⟨row, hrow, rfl⟩ := List.mem_map.mp hp
    obtain ⟨e', -, rfl⟩ := List.mem_map.mp hrow
    rw [loadRow_entryRow hfit] at hpe
    show NulFree g.1.toList
    rw [← hpe]
    exact nulFree_c_str e'.1

/-- **One root node** is read back exactly when it is clean. -/
theorem columnView_reloaded {cols : List Column} (hfit : ∀ c ∈ cols, Fits c = true)
    (hnodup : (cols.map Column.name).Nodup) {node : Json} (hwf : node.WellFormed) {rows : List Row}
    (h : nodeRows cols node = .ok rows) :
    columnView cols ((CfgMng.reloaded rows).getD .null) = columnView cols node ↔ CleanNode cols node := by
  -- with the names intact, the entries are compared one by one
  have hview : (∀ e ∈ entries node, NulFree e.1.toList) →
      (columnView cols ((CfgMng.reloaded rows).getD .null) = columnView cols node ↔
        ∀ e ∈ entries node, ∀ c ∈ cols, CleanColumn e.2 c) := by
    intro hnames
    have hwfs : ∀ e ∈ entries node, e.2.WellFormed := by
      intro e he
      obtain ⟨it, hit, he⟩ := List.mem_flatMap.mp he
      obtain ⟨elm, helm, rfl⟩ := List.mem_map.mp he
      exact (hwf.elems (List.mem_map_of_mem hit)).elems helm
    rw [columnView, columnView, entries_reloaded hfit hwf h hnames, List.map_map, List.map_inj_left]
    refine forall₂_congr fun e he => ?_
    rw [Function.comp_apply, Prod.mk.injEq, List.map_inj_left, eq_self_iff_true, true_and]
    refine forall₂_congr fun c hc => ?_
    rw [find?_loadedEntry hnodup e.2 hc]
    exact cellValue_iff (hfit c hc) (hwfs e he) ((nodeRows_ok h).1 e he c hc)
  constructor
  · intro heq
    have hnames : ∀ e ∈ entries node, NulFree e.1.toList := by
      intro e he
      have hmem : (e.1, cols.map fun c => e.2.find? c.name) ∈ columnView cols node := List.mem_map.mpr ⟨e, he, rfl⟩
      rw [← heq] at hmem
      obtain ⟨e', he', hee⟩ := List.mem_map.mp hmem
      rw [← congrArg Prod.fst hee]
      exact nulFree_reloaded hfit h e' he'
    exact fun e he => ⟨hnames e he, (hview hnames).mp heq e he⟩
  · exact fun hclean => (hview fun e he => (hclean e he).1).mpr fun e he => (hclean e he).2

namespace CfgMng

/-- The index loop makes well-formed entries of well-formed entries. -/
theorem wellFormed_fillIdx {M : Int} {objs objs' : List Json} (h : fillIdx M objs = .ok objs')
    (hobjs : ∀ obj ∈ objs, obj.WellFormed) : ∀ obj ∈ objs', obj.WellFormed := by
  induction objs generalizing M objs' with
  | nil =>
    cases h
    simp
  | cons obj objs ih =>
    obtain ⟨hobj, hobjs⟩ := List.forall_mem_cons.mp hobjs
    obtain ⟨i, -, h⟩ := except_bind_eq_ok.mp h
    split at h
    · obtain ⟨M', -, h₁⟩ := except_bind_eq_ok.mp h
      obtain ⟨obj', hset, h₂⟩ := except_bind_eq_ok.mp h₁
      obtain ⟨rest, hrest, h₃⟩ := except_bind_eq_ok.mp h₂
      obtain rfl : obj' :: rest = objs' := Except.ok.inj h₃
      exact List.forall_mem_cons.mpr ⟨hobj.set (.string _) hset, ih hrest hobjs⟩
    · obtain ⟨rest, hrest, h⟩ := except_bind_eq_ok.mp h
      obtain rfl : obj :: rest = objs' := Except.ok.inj h
      exact List.forall_mem_cons.mpr ⟨hobj, ih hrest hobjs⟩

theorem wellFormed_allocSubNodes {r : String} {its : List (Option String × Json)} {s s₁ : CfgMng}
    {vs : List Json} (h : allocSubNodes r its s = .ok vs s₁) (hits : ∀ it ∈ its, it.2.WellFormed) :
    ∀ v ∈ vs, v.WellFormed := by
  induction its generalizing s vs with
  | nil =>
    cases h
    simp
  | cons it its ih =>
    obtain ⟨hit, hits⟩ := List.forall_mem_cons.mp hits
    obtain ⟨v, t, hv, h⟩ := bind_eq_ok.mp h
    obtain ⟨ws, t', hws, h⟩ := bind_eq_ok.mp h
    cases h
    obtain ⟨k, t₁, -, hv⟩ := bind_eq_ok.mp hv
    obtain ⟨M, t₂, -, hv⟩ := bind_eq_ok.mp hv
    obtain ⟨objs, t₃, hfill, hv⟩ := bind_eq_ok.mp hv
    cases hv
    obtain ⟨hfill, -⟩ := fromExcept_eq_ok.mp hfill
    have hobjs := wellFormed_fillIdx hfill fun obj hobj => hit.elems hobj
    exact List.forall_mem_cons.mpr ⟨hit.withElems hobjs, ih hws hits⟩

/-- **What an update accepts** is well formed, and rows can be made of it. -/
theorem accepted {exFactory : CfgObjMap} (hread : Readable exFactory) {r : String} {jSubNode : Json}
    {s₀ s : CfgMng} (h : RuntimeSysCfgUpdate exFactory r jSubNode s₀ = .ok ⟨⟩ s)
    (hs₀ : s₀.m_jRuntimeSysCfg.WellFormed) (hj : jSubNode.WellFormed) :
    (∀ t, (s.m_jRuntimeSysCfg.get t).WellFormed) ∧ s.Parsed ∧
      ∀ t ∈ tableOrder, tableRows s.m_mapRuntimeSysCfg t = .ok (rowsToWrite s.m_mapRuntimeSysCfg t) := by
  obtain ⟨v, -, hv, -⟩ := hread
  obtain ⟨vs, s₁, s₂, halloc, hfind, hparsed, -, -, hupd⟩ := RuntimeSysCfgUpdate_ok h
  have hstate := stateOf_updateDb hv r hparsed
  rw [hupd] at hstate
  have hrows := rows_of_updateDb hv hparsed hupd
  obtain rfl : s = _ := hstate
  refine ⟨fun t => ?_, hparsed, hrows⟩
  show (s₂.m_jRuntimeSysCfg.get t).WellFormed
  rw [Json.get, hfind]
  split
  · exact hj.withElems (wellFormed_allocSubNodes halloc fun it hit => hj.elems (List.mem_map_of_mem hit))
  · exact hs₀.get t

/-- The table functions write the rows of the root nodes into empty tables. -/
theorem DBTableOpt_empty {s : CfgMng} (hparsed : s.Parsed)
    (hrows : ∀ t ∈ tableOrder, tableRows s.m_mapRuntimeSysCfg t = .ok (rowsToWrite s.m_mapRuntimeSysCfg t))
    (exFactory : CfgObjMap) {db : Sqlite} (hempty : ∀ t ∈ rootNodes, db.select t = []) :
    ∃ db', DBTableOpt exFactory s.m_mapRuntimeSysCfg false db = .ok ⟨⟩ db' ∧
      ∀ t ∈ rootNodes, nodeRows (columnsOf t) (s.m_jRuntimeSysCfg.get t) = .ok (db'.select t) := by
  have hwrite := forM_initTable_of_rows tableOrder hparsed.getList_ne_nil hrows db
  rw [DBTableOpt_runtime]
  refine ⟨_, hwrite, fun t ht => ?_⟩
  have hfind := find?_initTables s.m_mapRuntimeSysCfg tableOrder tableOrder_nodup db t
  rw [if_pos (mem_tableOrder.mpr ht), Sqlite.filled_getD] at hfind
  have hselect : (initTables s.m_mapRuntimeSysCfg tableOrder db).select t =
      rowsToWrite s.m_mapRuntimeSysCfg t := by
    have hnone : (SortedMap.find? db.tables t).getD [] = [] := hempty t ht
    rw [Sqlite.select, hfind, hnone]
    rfl
  rw [hselect]
  exact hparsed.nodeRows_of_tableRows ht (hrows t (mem_tableOrder.mpr ht))

theorem mem_loadOrder {r : String} : r ∈ loadOrder ↔ r ∈ rootNodes := by
  simp only [loadOrder, rootNodes, List.mem_cons, List.not_mem_nil, or_false]
  tauto

/-- **The configuration through the tables.** What an update accepts is written into empty
tables, and it is read back exactly when all root nodes are clean. -/
theorem columnView_round_trip {exFactory : CfgObjMap} (hread : Readable exFactory) {r : String} {jSubNode : Json}
    {s₀ s : CfgMng} (h : RuntimeSysCfgUpdate exFactory r jSubNode s₀ = .ok ⟨⟩ s)
    (hs₀ : s₀.m_jRuntimeSysCfg.WellFormed) (hj : jSubNode.WellFormed) {db : Sqlite}
    (hempty : ∀ t ∈ rootNodes, db.select t = []) :
    ∃ db' s₁, DBTableOpt exFactory s.m_mapRuntimeSysCfg false db = .ok ⟨⟩ db' ∧
      loadTables exFactory ⟨.null, [], db'⟩ = .ok ⟨⟩ s₁ ∧
      ((∀ t ∈ rootNodes, columnView (columnsOf t) (s₁.m_jRuntimeSysCfg.get t) =
          columnView (columnsOf t) (s.m_jRuntimeSysCfg.get t)) ↔
        ∀ t ∈ rootNodes, CleanNode (columnsOf t) (s.m_jRuntimeSysCfg.get t)) := by
  obtain ⟨hwf, hparsed, hmade⟩ := accepted hread h hs₀ hj
  obtain ⟨db', hwrite, hrows⟩ := DBTableOpt_empty hparsed hmade exFactory hempty
  obtain ⟨j, hload, hfind, -⟩ := forM_LoadRuntimeSysCfgTableInDb hread loadOrder (by decide)
    (s := ⟨.null, [], db'⟩) trivial fun _ _ => rfl
  refine ⟨db', _, hwrite, hload, forall₂_congr fun t ht => ?_⟩
  have hget : j.get t = (reloaded (db'.select t)).getD .null := by
    rw [Json.get, hfind t (mem_loadOrder.mpr ht)]
  show columnView (columnsOf t) (j.get t) = _ ↔ _
  rw [hget]
  exact columnView_reloaded (columnsOf_fit t) (columnsOf_nodup t) (hwf t) (hrows t ht)

theorem wellFormed_databaseOnly : databaseOnly.m_jRuntimeSysCfg.WellFormed := by
  have hparams : (Json.object [("pwd", .string "123")]).WellFormed :=
    .object _ (by decide) (List.forall_mem_singleton.mpr (.string _))
  have hentry : sqliteEntry.WellFormed := by
    refine .object _ (by decide) ?_
    simp only [List.forall_mem_cons]
    exact ⟨.string _, .string _, .string _, .string _, hparams, .string _, .string _, by simp⟩
  have hnode : sqliteNode.WellFormed :=
    .object _ (by decide) (List.forall_mem_singleton.mpr (.array _ (List.forall_mem_singleton.mpr hentry)))
  refine .object _ (by decide) ?_
  simp only [List.forall_mem_cons]
  exact ⟨.object _ (by decide) (by simp), hnode, .null, .null, by simp⟩

theorem wellFormed_tcpServerNode : tcpServerNode.WellFormed := by
  have hparams : (Json.object [("threads", .string "50")]).WellFormed :=
    .object _ (by decide) (List.forall_mem_singleton.mpr (.string _))
  refine .object _ (by decide) (List.forall_mem_singleton.mpr (.array _ (List.forall_mem_singleton.mpr ?_)))
  refine .object _ (by decide) ?_
  simp only [List.forall_mem_cons]
  exact ⟨.string _, .string _, .string _, .string _, hparams, .string _, .string _, by simp⟩

/-- The server that is configured is read back. -/
theorem columnView_round_trip_tcp_server : ∃ s db' s₁,
    RuntimeSysCfgUpdate exFactorySqlite strTransferNode tcpServerNode databaseOnly = .ok ⟨⟩ s ∧
      DBTableOpt exFactorySqlite s.m_mapRuntimeSysCfg false ⟨[], false⟩ = .ok ⟨⟩ db' ∧
      loadTables exFactorySqlite ⟨.null, [], db'⟩ = .ok ⟨⟩ s₁ ∧
      ∀ t ∈ rootNodes, columnView (columnsOf t) (s₁.m_jRuntimeSysCfg.get t) =
        columnView (columnsOf t) (s.m_jRuntimeSysCfg.get t) := by
  have hupdate : RuntimeSysCfgUpdate exFactorySqlite strTransferNode tcpServerNode databaseOnly =
      .ok ⟨⟩ (stateOf (RuntimeSysCfgUpdate exFactorySqlite strTransferNode tcpServerNode databaseOnly)) := rfl
  have hread : Readable exFactorySqlite := ⟨sqliteEntry, _, rfl, rfl⟩
  have hempty : ∀ t ∈ rootNodes, (⟨[], false⟩ : Sqlite).select t = [] := by decide
  obtain ⟨db', s₁, hwrite, hload, hiff⟩ := columnView_round_trip hread hupdate wellFormed_databaseOnly
    wellFormed_tcpServerNode hempty
  exact ⟨_, db', s₁, hupdate, hwrite, hload, hiff.mpr (by decide +kernel)⟩

/-- The shipped database entry with the password "a:b". -/
def colonNode : Json :=
  .object [(strDbSqliteNode, .array [.object [("desc", .string ""), ("enable", .string "0"), ("idx", .string "1"),
    ("ip", .string "127.0.0.1"), ("params", .object [("pwd", .string "a:b")]), ("port", .string "123"),
    ("type", .string "sqlitesvr")]])]

/-- The password in the first entry of a view. -/
def firstPwd (view : List (String × List (Option Json))) : Option String :=
  match view with
  | (_, _ :: _ :: _ :: some jParams :: _) :: _ => (jParams.attr "pwd").toOption
  | _ => none

/-- What is behind the colon of a password is lost. -/
theorem not_columnView_round_trip_colon : ∃ s db' s₁,
    RuntimeSysCfgUpdate exFactorySqlite strDbNode colonNode databaseOnly = .ok ⟨⟩ s ∧
      DBTableOpt exFactorySqlite s.m_mapRuntimeSysCfg false ⟨[], false⟩ = .ok ⟨⟩ db' ∧
      loadTables exFactorySqlite ⟨.null, [], db'⟩ = .ok ⟨⟩ s₁ ∧
      columnView (columnsOf strDbNode) (s₁.m_jRuntimeSysCfg.get strDbNode) ≠
        columnView (columnsOf strDbNode) (s.m_jRuntimeSysCfg.get strDbNode) := by
  refine ⟨_, _, _, rfl, rfl, rfl, fun heq => ?_⟩
  have hpwd := congrArg firstPwd heq
  revert hpwd
  decide +kernel

end CfgMng

end Perception.Cfg
