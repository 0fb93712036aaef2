import Perception.Cfg.Json
import Perception.Lib.StateExcept

/-!
# The lookup map of the configuration

`ParseJson` files every root node, and every entry of every sub-node under three keys:
the node, the node with the type, and the type with the idx. The keys are texts without
separators, so an entry can also land under the name of a root node. A root node is told
from an entry by its member `type`, which only an entry has as a string.
-/
namespace Perception.Cfg

set_option autoImplicit false

open Perception.Lib StateExcept

def strAttriType : String := "type"
def strAttriIdx : String := "idx"

def strTransferNode : String := "Transfer"
def strDbNode : String := "Db"
def strDbSqliteNode : String := "SqliteSvr"
def strAlgNode : String := "Alg"
def strTaskNode : String := "Task"
def strAppNode : String := "App"
def strAppCommSafeNode : String := "CommSafe"

/-- The root nodes, in the order in which `ParseJson` goes through them. -/
def rootNodes : List String := [strTransferNode, strAlgNode, strDbNode, strAppNode, strTaskNode]

/-- `std::map<std::string, CfgObj>`, a `CfgObj` being the list of the values it holds. -/
abbrev CfgObjMap := List (String × List Json)

namespace CfgObjMap

/-- `GetRuntimeSysCfg(strKey, lstCfg)`: what is appended to an empty list. -/
def getList (m : CfgObjMap) (strKey : String) : List Json := (SortedMap.find? m strKey).getD []

/-- `GetRuntimeSysCfg(strKey, cfg)`. -/
def getFirst (m : CfgObjMap) (strKey : String) : Option Json := (m.getList strKey).head?

end CfgObjMap

def SaveJsonObj (strKey : String) (elm : Json) : EStateM Exn CfgObjMap Unit :=
  modify fun m : CfgObjMap => SortedMap.insert m strKey (m.getList strKey ++ [elm])

/-- The body of the inner loop of `ParseJsonNodeObj`. -/
def ParseElm (strNodeKey : String) (elm : Json) : EStateM Exn CfgObjMap Unit := do
  SaveJsonObj strNodeKey elm
  let strType ← fromExcept (elm.attr strAttriType)
  SaveJsonObj (strNodeKey ++ strType) elm
  let strIdx ← fromExcept (elm.attr strAttriIdx)
  SaveJsonObj (strType ++ strIdx) elm

def ParseSubNode (strNode : String) (it : Option String × Json) : EStateM Exn CfgObjMap Unit := do
  let strSubNode ← fromExcept (Json.keyOf it.1)
  it.2.elems.forM (ParseElm (strNode ++ strSubNode))

def ParseJsonNodeObj (jObj : Json) (strNode : String) : EStateM Exn CfgObjMap Unit := do
  let node ← fromExcept (jObj.child strNode)
  SaveJsonObj strNode node
  node.items.forM (ParseSubNode strNode)

def ParseJson (jObj : Json) : EStateM Exn CfgObjMap Unit := rootNodes.forM (ParseJsonNodeObj jObj)

/-- A value with a string member `type`. -/
def isEntry (j : Json) : Bool :=
  match j.find? strAttriType with
  | some (.string _) => true
  | _ => false

theorem isEntry_of_attr {j : Json} {s : String} (h : j.attr strAttriType = .ok s) : isEntry j = true := by
  rw [Json.attr_eq_ok] at h
  rw [isEntry, h]

/-- The type of an entry is one of its members. -/
theorem exists_type_of_isEntry {j : Json} (he : isEntry j = true) :
    ∃ s, (some strAttriType, Json.string s) ∈ j.items := by
  unfold isEntry at he
  split at he
  · next s hs =>
    cases j with
    | object m => exact ⟨s, List.mem_map.mpr ⟨_, SortedMap.mem_of_find? hs, rfl⟩⟩
    | _ => cases hs
  · cases he

/-- `j` is a node that can be walked: its members are sub-nodes, and the values in them
have a string type and a string idx. -/
def Walkable (j : Json) : Prop :=
  ∀ it ∈ j.items, (∃ k, it.1 = some k) ∧ ∀ elm ∈ it.2.elems,
    (∃ t, elm.attr strAttriType = .ok t) ∧ ∃ i, elm.attr strAttriIdx = .ok i

/-- A walkable node is no entry: its member `type` would be a sub-node that holds a text. -/
theorem not_isEntry_of_walkable {j : Json} (h : Walkable j) : isEntry j = false := by
  by_contra he
  obtain ⟨s, hit⟩ := exists_type_of_isEntry (eq_true_of_ne_false he)
  obtain ⟨⟨t, ht⟩, -⟩ := (h _ hit).2 (.string s) List.mem_cons_self
  cases ht

/-- The values under `k` that are no entries. -/
def CfgObjMap.nodesAt (m : CfgObjMap) (k : String) : List Json :=
  (m.getList k).filter fun j => !isEntry j

theorem getList_SaveJsonObj {strKey : String} {elm : Json} {m m' : CfgObjMap}
    (h : SaveJsonObj strKey elm m = .ok ⟨⟩ m') (k : String) :
    m'.getList k = if k = strKey then m.getList k ++ [elm] else m.getList k := by
  cases h
  rw [CfgObjMap.getList, SortedMap.find?_insert]
  split
  · next hk =>
    rw [hk]
    rfl
  · rfl

theorem nodesAt_SaveJsonObj_entry {strKey : String} {elm : Json} {m m' : CfgObjMap}
    (he : isEntry elm = true) (h : SaveJsonObj strKey elm m = .ok ⟨⟩ m') (k : String) :
    m'.nodesAt k = m.nodesAt k := by
  rw [CfgObjMap.nodesAt, getList_SaveJsonObj h]
  split
  · rw [List.filter_append, List.filter_cons_of_neg (by simp [he]), List.filter_nil, List.append_nil]
    rfl
  · rfl

theorem nodesAt_SaveJsonObj_node {strKey : String} {node : Json} {m m' : CfgObjMap}
    (hn : isEntry node = false) (h : SaveJsonObj strKey node m = .ok ⟨⟩ m') (k : String) :
    m'.nodesAt k = if k = strKey then m.nodesAt k ++ [node] else m.nodesAt k := by
  rw [CfgObjMap.nodesAt, getList_SaveJsonObj h]
  split
  · rw [List.filter_append, List.filter_cons_of_pos (by simp [hn]), List.filter_nil]
    rfl
  · rfl

/-- Filing an element: it is an entry with an idx, and no root node is added. -/
theorem ParseElm_ok {strNodeKey : String} {elm : Json} {m m' : CfgObjMap}
    (h : ParseElm strNodeKey elm m = .ok ⟨⟩ m') :
    ((∃ t, elm.attr strAttriType = .ok t) ∧ ∃ i, elm.attr strAttriIdx = .ok i) ∧
      ∀ k, m'.nodesAt k = m.nodesAt k := by
  obtain ⟨_, m₁, h₁, h⟩ := bind_eq_ok.mp h
  obtain ⟨t, m₂, h₂, h⟩ := bind_eq_ok.mp h
  obtain ⟨ht, rfl⟩ := fromExcept_eq_ok.mp h₂
  obtain ⟨_, m₃, h₃, h⟩ := bind_eq_ok.mp h
  obtain ⟨i, m₄, h₄, h⟩ := bind_eq_ok.mp h
  obtain ⟨hi, rfl⟩ := fromExcept_eq_ok.mp h₄
  have he := isEntry_of_attr ht
  refine ⟨⟨⟨t, ht⟩, i, hi⟩, fun k => ?_⟩
  rw [nodesAt_SaveJsonObj_entry he h, nodesAt_SaveJsonObj_entry he h₃, nodesAt_SaveJsonObj_entry he h₁]

/-- What a loop over the elements of a sub-node leaves. -/
theorem forM_ParseElm_ok {strNodeKey : String} {elms : List Json} {m m' : CfgObjMap}
    (h : elms.forM (ParseElm strNodeKey) m = .ok ⟨⟩ m') :
    (∀ elm ∈ elms, (∃ t, elm.attr strAttriType = .ok t) ∧ ∃ i, elm.attr strAttriIdx = .ok i) ∧
      ∀ k, m'.nodesAt k = m.nodesAt k := by
  induction elms generalizing m with
  | nil =>
    cases h
    exact ⟨by simp, fun _ => rfl⟩
  | cons elm elms ih =>
    obtain ⟨_, m₁, h₁, h⟩ := bind_eq_ok.mp h
    obtain ⟨helm, hm₁⟩ := ParseElm_ok h₁
    obtain ⟨helms, hm⟩ := ih h
    exact ⟨List.forall_mem_cons.mpr ⟨helm, helms⟩, fun k => (hm k).trans (hm₁ k)⟩

theorem forM_ParseSubNode_ok {strNode : String} {its : List (Option String × Json)} {m m' : CfgObjMap}
    (h : its.forM (ParseSubNode strNode) m = .ok ⟨⟩ m') :
    (∀ it ∈ its, (∃ k, it.1 = some k) ∧ ∀ elm ∈ it.2.elems,
      (∃ t, elm.attr strAttriType = .ok t) ∧ ∃ i, elm.attr strAttriIdx = .ok i) ∧
      ∀ k, m'.nodesAt k = m.nodesAt k := by
  induction its generalizing m with
  | nil =>
    cases h
    exact ⟨by simp, fun _ => rfl⟩
  | cons it its ih =>
    obtain ⟨_, m₁, h₁, h⟩ := bind_eq_ok.mp h
    obtain ⟨k, _, hk, h₁⟩ := bind_eq_ok.mp h₁
    obtain ⟨hk, rfl⟩ := fromExcept_eq_ok.mp hk
    obtain ⟨helm, hm₁⟩ := forM_ParseElm_ok h₁
    obtain ⟨hits, hm⟩ := ih h
    have hkey : ∃ k, it.1 = some k := by
      cases hit : it.1 with
      | none =>
        rw [hit] at hk
        cases hk
      | some k => exact ⟨k, rfl⟩
    exact ⟨List.forall_mem_cons.mpr ⟨⟨hkey, helm⟩, hits⟩, fun k => (hm k).trans (hm₁ k)⟩

/-- Filing a root node: it is walkable, and it is the one value added that is no entry. -/
theorem ParseJsonNodeObj_ok {jObj : Json} {strNode : String} {m m' : CfgObjMap}
    (h : ParseJsonNodeObj jObj strNode m = .ok ⟨⟩ m') :
    Walkable (jObj.get strNode) ∧ ∀ k, m'.nodesAt k =
      if k = strNode then m.nodesAt k ++ [jObj.get strNode] else m.nodesAt k := by
  obtain ⟨node, m₁, h₁, h⟩ := bind_eq_ok.mp h
  obtain ⟨hnode, rfl⟩ := fromExcept_eq_ok.mp h₁
  obtain rfl := Json.child_eq_ok hnode
  obtain ⟨_, m₂, h₂, h⟩ := bind_eq_ok.mp h
  obtain ⟨hits, hm⟩ := forM_ParseSubNode_ok h
  have hwalk : Walkable (jObj.get strNode) := hits
  refine ⟨hwalk, fun k => ?_⟩
  rw [hm k, nodesAt_SaveJsonObj_node (not_isEntry_of_walkable hwalk) h₂]

/-- **What `ParseJson` leaves**: every root node is walkable, and under its name stands
that node, once, among entries. -/
theorem ParseJson_ok {jObj : Json} {m : CfgObjMap} (h : ParseJson jObj [] = .ok ⟨⟩ m) :
    ∀ r ∈ rootNodes, Walkable (jObj.get r) ∧ m.nodesAt r = [jObj.get r] := by
  have hrun : ∀ (rs : List String) (m₀ m : CfgObjMap), rs.Nodup →
      rs.forM (ParseJsonNodeObj jObj) m₀ = .ok ⟨⟩ m →
      (∀ r ∈ rs, Walkable (jObj.get r)) ∧
        ∀ k, m.nodesAt k = if k ∈ rs then m₀.nodesAt k ++ [jObj.get k] else m₀.nodesAt k := by
    intro rs
    induction rs with
    | nil =>
      intro m₀ m _ h
      cases h
      exact ⟨by simp, fun k => by simp⟩
    | cons r rs ih =>
      intro m₀ m hnd h
      obtain ⟨hr, hnd⟩ := List.nodup_cons.mp hnd
      obtain ⟨_, m₁, h₁, h⟩ := bind_eq_ok.mp h
      obtain ⟨hwalk, hm₁⟩ := ParseJsonNodeObj_ok h₁
      obtain ⟨hwalks, hm⟩ := ih m₁ m hnd h
      refine ⟨List.forall_mem_cons.mpr ⟨hwalk, hwalks⟩, fun k => ?_⟩
      rw [hm k, hm₁ k]
      by_cases hk : k = r
      · subst hk
        simp [hr]
      · simp [hk]
  obtain ⟨hwalk, hm⟩ := hrun rootNodes [] m (by decide) h
  intro r hr
  refine ⟨hwalk r hr, ?_⟩
  rw [hm r, if_pos hr]
  rfl

end Perception.Cfg
