import Perception.Cfg.CfgMng
import Perception.Db.InitTables

/-!
# The steps of an update

What each step of `RuntimeSysCfgUpdate` does to the configuration, the lookup map and the
tables, also when it throws.
-/
namespace Perception.Cfg

set_option autoImplicit false

open Perception.Lib Perception.Db StateExcept

namespace Json

/-- A chain of accesses stays under its first key. -/
theorem onPath_find?_of_ne {α : Type} (f : Json → Except Exn α × Json) {k k' : String} (hne : k' ≠ k)
    (p : List Access) (j : Json) : (onPath f (.key k :: p) j).2.find? k' = j.find? k' := by
  cases j with
  | null =>
    show SortedMap.find? [(k, _)] k' = none
    rw [SortedMap.find?_cons, if_neg hne]
    rfl
  | object m => exact SortedMap.find?_insert_of_ne _ _ hne
  | _ => rfl

theorem onPath_sorted {α : Type} (f : Json → Except Exn α × Json) (k : String) (p : List Access) {j : Json}
    (h : j.Sorted) : (onPath f (.key k :: p) j).2.Sorted := by
  intro m hm
  cases j with
  | null =>
    obtain rfl := object.inj hm
    exact List.pairwise_singleton _ _
  | object m₀ =>
    obtain rfl := object.inj hm
    exact (h m₀ rfl).insert _ _
  | _ => cases hm

end Json

namespace CfgMng

theorem onCfg_of_ok {α : Type} {f : Json → Except Exn α × Json} {s : CfgMng} {a : α} {j : Json}
    (h : f s.m_jRuntimeSysCfg = (.ok a, j)) : onCfg f s = .ok a { s with m_jRuntimeSysCfg := j } := by
  rw [onCfg, h]

theorem onCfg_of_error {α : Type} {f : Json → Except Exn α × Json} {s : CfgMng} {e : Exn} {j : Json}
    (h : f s.m_jRuntimeSysCfg = (.error e, j)) :
    onCfg f s = .error e { s with m_jRuntimeSysCfg := j } := by
  rw [onCfg, h]

theorem stateOf_onCfg {α : Type} (f : Json → Except Exn α × Json) (s : CfgMng) :
    stateOf (onCfg f s) = { s with m_jRuntimeSysCfg := (f s.m_jRuntimeSysCfg).2 } := by
  rcases h : f s.m_jRuntimeSysCfg with ⟨r, j⟩
  cases r with
  | ok a => rw [onCfg_of_ok h]; rfl
  | error e => rw [onCfg_of_error h]; rfl

/-- Only the node `r` of the configuration differs. -/
structure OnlyNode (r : String) (s s' : CfgMng) : Prop where
  db : s'.db = s.db
  map : s'.m_mapRuntimeSysCfg = s.m_mapRuntimeSysCfg
  other : ∀ r', r' ≠ r → s'.m_jRuntimeSysCfg.find? r' = s.m_jRuntimeSysCfg.find? r'
  sorted : s.m_jRuntimeSysCfg.Sorted → s'.m_jRuntimeSysCfg.Sorted

theorem OnlyNode.refl (r : String) (s : CfgMng) : OnlyNode r s s := ⟨rfl, rfl, fun _ _ => rfl, id⟩

theorem OnlyNode.trans {r : String} {s s₁ s' : CfgMng} (h : OnlyNode r s s₁) (h' : OnlyNode r s₁ s') :
    OnlyNode r s s' where
  db := h'.db.trans h.db
  map := h'.map.trans h.map
  other r' hne := (h'.other r' hne).trans (h.other r' hne)
  sorted := h'.sorted ∘ h.sorted

theorem onlyNode_fromExcept {α : Type} (r : String) (x : Except Exn α) (s : CfgMng) :
    OnlyNode r s (stateOf ((fromExcept x : Cmd α) s)) := by
  cases x <;> exact OnlyNode.refl r s

theorem onlyNode_allocSubNode (r : String) (it : Option String × Json) (s : CfgMng) :
    OnlyNode r s (stateOf (allocSubNode r it s)) := by
  unfold allocSubNode
  refine stateOf_bind_rel (R := OnlyNode r) OnlyNode.trans (onlyNode_fromExcept r _ s) fun k s₁ _ => ?_
  refine stateOf_bind_rel (R := OnlyNode r) OnlyNode.trans ?_ fun n s₂ _ => ?_
  · rw [stateOf_onCfg]
    exact ⟨rfl, rfl, fun r' hne => Json.onPath_find?_of_ne _ hne _ _, Json.onPath_sorted _ _ _⟩
  · refine stateOf_bind_rel (R := OnlyNode r) OnlyNode.trans (onlyNode_fromExcept r _ s₂) fun _ s₃ _ => ?_
    exact OnlyNode.refl r s₃

/-- The allocation of indices touches nothing but the node it allocates for. -/
theorem onlyNode_allocSubNodes (r : String) (its : List (Option String × Json)) (s : CfgMng) :
    OnlyNode r s (stateOf (allocSubNodes r its s)) := by
  induction its generalizing s with
  | nil => exact OnlyNode.refl r s
  | cons it its ih =>
    unfold allocSubNodes
    refine stateOf_bind_rel (R := OnlyNode r) OnlyNode.trans (onlyNode_allocSubNode r it s) fun v s₁ _ => ?_
    refine stateOf_bind_rel (R := OnlyNode r) OnlyNode.trans (ih s₁) fun _ s₂ _ => ?_
    exact OnlyNode.refl r s₂

theorem replaceRoot_eq_ok {r : String} {v j j' : Json} :
    replaceRoot r v j = (.ok (), j') ↔ ∃ m old, j = .object m ∧ SortedMap.find? m r = some old ∧
      j' = .object (SortedMap.insert (SortedMap.erase m r) r v) := by
  unfold replaceRoot
  cases j with
  | object m =>
    cases hf : SortedMap.find? m r with
    | none => simp [hf]
    | some old => simp [hf, eq_comm]
  | _ => simp

/-- A node that is replaced is the new one, and the others are as before. -/
theorem replaceRoot_find? {r : String} {v j j' : Json} (h : replaceRoot r v j = (.ok (), j')) (r' : String) :
    j'.find? r' = if r' = r then some v else j.find? r' := by
  obtain ⟨m, old, rfl, -, rfl⟩ := replaceRoot_eq_ok.mp h
  show SortedMap.find? (SortedMap.insert (SortedMap.erase m r) r v) r' = _
  rw [SortedMap.find?_insert, SortedMap.find?_erase]
  by_cases hr : r' = r
  · rw [if_pos hr, if_pos hr]
  · rw [if_neg hr, if_neg hr, if_neg hr]
    rfl

theorem replaceRoot_sorted {r : String} {v j j' : Json} (h : replaceRoot r v j = (.ok (), j'))
    (hs : j.Sorted) : j'.Sorted := by
  obtain ⟨m, old, rfl, -, rfl⟩ := replaceRoot_eq_ok.mp h
  intro m' hm'
  obtain rfl := Json.object.inj hm'
  exact ((hs m rfl).erase r).insert r v

/-- A node that throws where it is replaced leaves everything. -/
theorem replaceRoot_error {r : String} {v j j' : Json} {e : Exn} (h : replaceRoot r v j = (.error e, j')) :
    j' = j := by
  unfold replaceRoot at h
  split at h
  · split at h
    · cases h
    · cases h
      rfl
  · cases h
    rfl

/-- The tables when they are about to be initialised. -/
def cleared (exFactory : CfgObjMap) (strRootNode : String) (db : Sqlite) : Sqlite :=
  if delAttached exFactory then db.deleteFrom strRootNode else db

theorem find?_cleared (exFactory : CfgObjMap) (r : String) (db : Sqlite) (t : String) :
    SortedMap.find? (cleared exFactory r db).tables t =
      if delAttached exFactory ∧ t = r then (SortedMap.find? db.tables t).map fun _ => []
      else SortedMap.find? db.tables t := by
  unfold cleared
  cases delAttached exFactory with
  | false => simp
  | true =>
    rw [if_pos rfl, Sqlite.find?_deleteFrom]
    by_cases hr : t = r
    · simp [hr]
    · simp [hr]

theorem getFirst_of_delAttached {exFactory : CfgObjMap} (h : delAttached exFactory = true) :
    ∃ v, exFactory.getFirst (strDbNode ++ strDbSqliteNode) = some v := by
  unfold delAttached at h
  unfold CfgObjMap.getFirst
  cases hl : exFactory.getList (strDbNode ++ strDbSqliteNode) with
  | nil =>
    rw [hl] at h
    cases h
  | cons v vs => exact ⟨v, rfl⟩

theorem updateDb_of_none {exFactory : CfgObjMap} (h : exFactory.getFirst (strDbNode ++ strDbSqliteNode) = none)
    (r : String) (s : CfgMng) : updateDb exFactory r s = .ok ⟨⟩ s := by
  unfold updateDb
  rw [h]

theorem updateDb_of_some {exFactory : CfgObjMap} {v : Json}
    (h : exFactory.getFirst (strDbNode ++ strDbSqliteNode) = some v) (r : String) (s : CfgMng) :
    updateDb exFactory r s = onDb (tableOrder.forM (initTable s.m_mapRuntimeSysCfg))
      { s with db := cleared exFactory r s.db } := by
  unfold updateDb cleared
  rw [h, ← DBTableOpt_runtime exFactory]
  cases delAttached exFactory <;> rfl

theorem stateOf_onDb {α : Type} (x : EStateM Exn Sqlite α) (s : CfgMng) :
    stateOf (onDb x s) = { s with db := stateOf (x s.db) } := by
  unfold onDb zoom
  cases x s.db <;> rfl

/-- The update of the tables leaves configuration and lookup map. -/
theorem stateOf_updateDb_cfg (exFactory : CfgObjMap) (r : String) (s : CfgMng) :
    (stateOf (updateDb exFactory r s)).m_jRuntimeSysCfg = s.m_jRuntimeSysCfg ∧
      (stateOf (updateDb exFactory r s)).m_mapRuntimeSysCfg = s.m_mapRuntimeSysCfg := by
  cases hv : exFactory.getFirst (strDbNode ++ strDbSqliteNode) with
  | none =>
    rw [updateDb_of_none hv]
    exact ⟨rfl, rfl⟩
  | some v =>
    rw [updateDb_of_some hv, stateOf_onDb]
    exact ⟨rfl, rfl⟩

/-- The configuration is the source of the lookup map. -/
def Parsed (s : CfgMng) : Prop := ParseJson s.m_jRuntimeSysCfg [] = .ok ⟨⟩ s.m_mapRuntimeSysCfg

theorem Parsed.getList_ne_nil {s : CfgMng} (h : s.Parsed) :
    ∀ t ∈ tableOrder, s.m_mapRuntimeSysCfg.getList t ≠ [] := by
  intro t ht hnil
  obtain ⟨-, hnode⟩ := ParseJson_ok h t (mem_tableOrder.mp ht)
  rw [CfgObjMap.nodesAt, hnil] at hnode
  cases hnode

/-- The state that the update of the tables leaves, whether or not it throws. -/
theorem stateOf_updateDb {exFactory : CfgObjMap} {v : Json}
    (h : exFactory.getFirst (strDbNode ++ strDbSqliteNode) = some v) (r : String) {s : CfgMng} (hs : s.Parsed) :
    stateOf (updateDb exFactory r s) = { s with
      db := initTables s.m_mapRuntimeSysCfg (reached s.m_mapRuntimeSysCfg tableOrder) (cleared exFactory r s.db) } := by
  rw [updateDb_of_some h, stateOf_onDb, stateOf_forM_initTable tableOrder hs.getList_ne_nil]

/-- When it returns, the rows of all tables were made. -/
theorem rows_of_updateDb {exFactory : CfgObjMap} {v : Json}
    (h : exFactory.getFirst (strDbNode ++ strDbSqliteNode) = some v) {r : String} {s s' : CfgMng} (hs : s.Parsed)
    (hok : updateDb exFactory r s = .ok ⟨⟩ s') :
    ∀ t ∈ tableOrder, tableRows s.m_mapRuntimeSysCfg t = .ok (rowsToWrite s.m_mapRuntimeSysCfg t) := by
  rw [updateDb_of_some h] at hok
  obtain ⟨d, hd, -⟩ := zoom_eq_ok.mp hok
  exact rows_of_forM_initTable tableOrder hs.getList_ne_nil hd

/-- The replacement of the node and the new lookup map. -/
def reload (strRootNode : String) (jSubNode : Json) : Cmd Unit := do
  onCfg (replaceRoot strRootNode jSubNode)
  modify fun s => { s with m_mapRuntimeSysCfg := [] }
  let s ← get
  onMap (ParseJson s.m_jRuntimeSysCfg)

theorem RuntimeSysCfgUpdate_eq (exFactory : CfgObjMap) (r : String) (jSubNode : Json) :
    RuntimeSysCfgUpdate exFactory r jSubNode =
      allocSubNodes r jSubNode.items >>= fun vs =>
        reload r (jSubNode.withElems vs) >>= fun _ => updateDb exFactory r := by
  simp only [RuntimeSysCfgUpdate, reload, bind_assoc]

theorem reload_eq_ok {r : String} {v : Json} {s s' : CfgMng} (h : reload r v s = .ok ⟨⟩ s') :
    replaceRoot r v s.m_jRuntimeSysCfg = (.ok (), s'.m_jRuntimeSysCfg) ∧ s'.Parsed ∧ s'.db = s.db := by
  obtain ⟨_, s₁, h₁, h⟩ := bind_eq_ok.mp h
  rcases hr : replaceRoot r v s.m_jRuntimeSysCfg with ⟨res, j⟩
  cases res with
  | error e =>
    rw [onCfg_of_error hr] at h₁
    cases h₁
  | ok u =>
    rw [onCfg_of_ok hr] at h₁
    cases h₁
    have h' : onMap (ParseJson j) { s with m_jRuntimeSysCfg := j, m_mapRuntimeSysCfg := [] } = .ok ⟨⟩ s' := h
    obtain ⟨m, hm, rfl⟩ := zoom_eq_ok.mp h'
    exact ⟨rfl, hm, rfl⟩

/-- **An update that returns**: the node is the submitted one with its indices, the other
nodes are as before, the lookup map is made from the configuration, and the tables are
updated. -/
theorem RuntimeSysCfgUpdate_ok {exFactory : CfgObjMap} {r : String} {jSubNode : Json} {s s' : CfgMng}
    (h : RuntimeSysCfgUpdate exFactory r jSubNode s = .ok ⟨⟩ s') :
    ∃ vs s₁ s₂, allocSubNodes r jSubNode.items s = .ok vs s₁ ∧
      (∀ r', s₂.m_jRuntimeSysCfg.find? r' =
        if r' = r then some (jSubNode.withElems vs) else s.m_jRuntimeSysCfg.find? r') ∧
      s₂.Parsed ∧ s₂.db = s.db ∧ (s.m_jRuntimeSysCfg.Sorted → s₂.m_jRuntimeSysCfg.Sorted) ∧
      updateDb exFactory r s₂ = .ok ⟨⟩ s' := by
  rw [RuntimeSysCfgUpdate_eq] at h
  obtain ⟨vs, s₁, h₁, h⟩ := bind_eq_ok.mp h
  obtain ⟨_, s₂, h₂, h⟩ := bind_eq_ok.mp h
  have honly : OnlyNode r s s₁ := by
    have := onlyNode_allocSubNodes r jSubNode.items s
    rwa [h₁] at this
  obtain ⟨hrep, hparsed, hdb⟩ := reload_eq_ok h₂
  refine ⟨vs, s₁, s₂, h₁, fun r' => ?_, hparsed, hdb.trans honly.db,
    fun hs => replaceRoot_sorted hrep (honly.sorted hs), h⟩
  rw [replaceRoot_find? hrep]
  by_cases hr : r' = r
  · rw [if_pos hr, if_pos hr]
  · rw [if_neg hr, if_neg hr, honly.other r' hr]

end CfgMng

end Perception.Cfg
