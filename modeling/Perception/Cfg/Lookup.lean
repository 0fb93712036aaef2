import Perception.Cfg.Tasks

/-!
# What a lookup finds

`ParseJson` files root nodes under their names, and entries under the path of their
sub-node, the path with their type, and their type with their idx. The four kinds of keys
are texts put together without separators, in one map. A lookup by type and idx is exact
when no two entries read the same there and no other key does.
-/
namespace Perception.Cfg

set_option autoImplicit false

open Perception.Lib Perception.Db StateExcept CfgMng

def typeOf (elm : Json) : String := text (elm.get strAttriType)
def idxOf (elm : Json) : String := text (elm.get strAttriIdx)

/-- The type of an entry with its idx, by which it is looked up. -/
def ident (elm : Json) : String := typeOf elm ++ idxOf elm

/-- The entries of a root node, each with the path of its sub-node. -/
def rootEntries (j : Json) (r : String) : List (String × Json) :=
  (j.get r).items.flatMap fun it => it.2.elems.map fun elm => (r ++ it.1.getD "", elm)

def allEntries (j : Json) : List (String × Json) := rootNodes.flatMap (rootEntries j)

def idents (j : Json) : List String := (allEntries j).map fun e => ident e.2

/-- The keys that are no identifiers of entries. -/
def pathKeys (j : Json) : List String :=
  rootNodes ++ (allEntries j).map Prod.fst ++ (allEntries j).map fun e => e.1 ++ typeOf e.2

/-- The camera ids that tasks use. -/
def usedTransferIds (j : Json) : List String :=
  (rootEntries j strAppNode).flatMap fun e => (e.2.get strAttriDataSrc).elems.filterMap fun subObj =>
    (subObj.attr strAttriTransferId).toOption

/-- The entries of the node Transfer that an id names. -/
def named (j : Json) (strTransId : String) : List Json :=
  ((rootEntries j strTransferNode).map Prod.snd).filter fun elm => ident elm = strTransId

/-- A lookup by type and idx finds that entry alone, and one by a camera id finds the entry
of the node Transfer that it names, if there is one, and nothing else. -/
structure LookupExact (j : Json) (m : CfgObjMap) : Prop where
  entry : ∀ e ∈ allEntries j, m.getList (ident e.2) = [e.2]
  source : ∀ strTransId ∈ usedTransferIds j,
    (named j strTransId).length ≤ 1 ∧ m.getList strTransId = named j strTransId

/-- No identifier is read in two ways, and a camera id is read as that of a camera only. -/
structure Unambiguous (j : Json) : Prop where
  distinct : (idents j).Nodup
  entry : ∀ e ∈ allEntries j, ident e.2 ∉ pathKeys j
  source : ∀ strTransId ∈ usedTransferIds j, strTransId ∉ pathKeys j ∧
    ∀ r ∈ [strAlgNode, strDbNode, strAppNode, strTaskNode], ∀ e ∈ rootEntries j r, ident e.2 ≠ strTransId

instance (j : Json) : Decidable (Unambiguous j) :=
  decidable_of_iff ((idents j).Nodup ∧ (∀ e ∈ allEntries j, ident e.2 ∉ pathKeys j) ∧
      ∀ strTransId ∈ usedTransferIds j, strTransId ∉ pathKeys j ∧
        ∀ r ∈ [strAlgNode, strDbNode, strAppNode, strTaskNode], ∀ e ∈ rootEntries j r, ident e.2 ≠ strTransId)
    ⟨fun h => ⟨h.1, h.2.1, h.2.2⟩, fun h => ⟨h.distinct, h.entry, h.source⟩⟩

/-- No two entries of a root node have the same type and idx. -/
def DistinctPairs (j : Json) : Prop :=
  ∀ r ∈ rootNodes, ((rootEntries j r).map fun e => (typeOf e.2, idxOf e.2)).Nodup

instance (j : Json) : Decidable (DistinctPairs j) := inferInstanceAs (Decidable (∀ _ ∈ _, List.Nodup _))

/-- What is filed of an entry, in order. -/
def entrySaves (e : String × Json) : List (String × Json) :=
  [e, (e.1 ++ typeOf e.2, e.2), (ident e.2, e.2)]

def rootSaves (j : Json) (r : String) : List (String × Json) :=
  (r, j.get r) :: (rootEntries j r).flatMap entrySaves

def saves (j : Json) : List (String × Json) := rootNodes.flatMap (rootSaves j)

/-- The values with the key `k`. -/
def valuesAt (k : String) (l : List (String × Json)) : List Json :=
  l.filterMap fun e => if e.1 = k then some e.2 else none

/-- The values of `l` are filed, behind what is there. -/
def Files (l : List (String × Json)) (m m' : CfgObjMap) : Prop :=
  ∀ k, m'.getList k = m.getList k ++ valuesAt k l

theorem Files.nil (m : CfgObjMap) : Files [] m m := fun _ => (List.append_nil _).symm

theorem Files.append {l l' : List (String × Json)} {m m₁ m' : CfgObjMap} (h : Files l m m₁)
    (h' : Files l' m₁ m') : Files (l ++ l') m m' := by
  intro k
  rw [h' k, h k, List.append_assoc, valuesAt, valuesAt, valuesAt, List.filterMap_append]

theorem files_SaveJsonObj {strKey : String} {elm : Json} {m m' : CfgObjMap}
    (h : SaveJsonObj strKey elm m = .ok ⟨⟩ m') : Files [(strKey, elm)] m m' := by
  intro k
  rw [getList_SaveJsonObj h]
  by_cases hk : strKey = k
  · simp [valuesAt, hk]
  · simp [valuesAt, hk, Ne.symm hk]

theorem text_of_attr {j : Json} {k s : String} (h : j.attr k = .ok s) : text (j.get k) = s := by
  rw [Json.get_of_find? (Json.attr_eq_ok.mp h), text]

theorem files_ParseElm {strNodeKey : String} {elm : Json} {m m' : CfgObjMap}
    (h : ParseElm strNodeKey elm m = .ok ⟨⟩ m') : Files (entrySaves (strNodeKey, elm)) m m' := by
  obtain ⟨_, m₁, h₁, h⟩ := bind_eq_ok.mp h
  obtain ⟨t, _, hfrom, h⟩ := bind_eq_ok.mp h
  obtain ⟨ht, rfl⟩ := fromExcept_eq_ok.mp hfrom
  obtain ⟨_, m₂, h₂, h⟩ := bind_eq_ok.mp h
  obtain ⟨i, _, hfrom', h⟩ := bind_eq_ok.mp h
  obtain ⟨hi, rfl⟩ := fromExcept_eq_ok.mp hfrom'
  have htype : typeOf elm = t := text_of_attr ht
  have hidx : idxOf elm = i := text_of_attr hi
  rw [entrySaves, ident, htype, hidx]
  exact (files_SaveJsonObj h₁).append ((files_SaveJsonObj h₂).append (files_SaveJsonObj h))

/-- A loop each turn of which files something. -/
theorem files_forM {ι : Type} {f : ι → EStateM Exn CfgObjMap PUnit} {g : ι → List (String × Json)} (xs : List ι)
    (hstep : ∀ x ∈ xs, ∀ m m', f x m = .ok ⟨⟩ m' → Files (g x) m m') {m m' : CfgObjMap}
    (h : xs.forM f m = .ok ⟨⟩ m') : Files (xs.flatMap g) m m' := by
  induction xs generalizing m with
  | nil =>
    cases h
    exact Files.nil _
  | cons x xs ih =>
    obtain ⟨m₁, hx, hxs⟩ := forM_cons_eq_ok.mp h
    obtain ⟨hfirst, hrest⟩ := List.forall_mem_cons.mp hstep
    rw [List.flatMap_cons]
    exact (hfirst m m₁ hx).append (ih hrest hxs)

theorem files_ParseSubNode {strNode : String} {it : Option String × Json} {m m' : CfgObjMap}
    (h : ParseSubNode strNode it m = .ok ⟨⟩ m') :
    Files (it.2.elems.flatMap fun elm => entrySaves (strNode ++ it.1.getD "", elm)) m m' := by
  obtain ⟨k, _, hfrom, h⟩ := bind_eq_ok.mp h
  obtain ⟨hk, rfl⟩ := fromExcept_eq_ok.mp hfrom
  have hkey : it.1.getD "" = k := by
    cases hit : it.1 with
    | none =>
      rw [hit] at hk
      cases hk
    | some k' =>
      rw [hit] at hk
      exact Except.ok.inj hk
  rw [hkey]
  exact files_forM _ (fun elm _ _ _ h => files_ParseElm h) h

theorem files_ParseJsonNodeObj {j : Json} {r : String} {m m' : CfgObjMap}
    (h : ParseJsonNodeObj j r m = .ok ⟨⟩ m') : Files (rootSaves j r) m m' := by
  obtain ⟨node, _, hnode, h⟩ := bind_eq_ok.mp h
  obtain ⟨hchild, rfl⟩ := fromExcept_eq_ok.mp hnode
  obtain rfl := Json.child_eq_ok hchild
  obtain ⟨_, m₁, h₁, h⟩ := bind_eq_ok.mp h
  have hentries : (rootEntries j r).flatMap entrySaves =
      (j.get r).items.flatMap fun it => it.2.elems.flatMap fun elm => entrySaves (r ++ it.1.getD "", elm) := by
    rw [rootEntries, List.flatMap_assoc]
    simp only [List.flatMap_map]
  rw [rootSaves, hentries]
  exact (files_SaveJsonObj h₁).append (files_forM _ (fun it _ _ _ h => files_ParseSubNode h) h)

/-- **The lookup map**: under a key stand the values that are filed there, in order. -/
theorem getList_ParseJson {j : Json} {m : CfgObjMap} (h : ParseJson j [] = .ok ⟨⟩ m) (k : String) :
    m.getList k = valuesAt k (saves j) :=
  files_forM rootNodes (fun _ _ _ _ h => files_ParseJsonNodeObj h) h k

theorem length_valuesAt (k : String) (l : List (String × Json)) :
    (valuesAt k l).length = (l.map Prod.fst).count k := by
  induction l with
  | nil => rfl
  | cons e l ih =>
    by_cases hk : e.1 = k
    · have hcons : valuesAt k (e :: l) = e.2 :: valuesAt k l := List.filterMap_cons_some (if_pos hk)
      rw [hcons, List.length_cons, ih, List.map_cons, hk, List.count_cons_self]
    · have hcons : valuesAt k (e :: l) = valuesAt k l := List.filterMap_cons_none (if_neg hk)
      rw [hcons, ih, List.map_cons, List.count_cons_of_ne hk]

theorem mem_valuesAt {k : String} {l : List (String × Json)} {v : Json} (h : (k, v) ∈ l) : v ∈ valuesAt k l :=
  List.mem_filterMap.mpr ⟨(k, v), h, if_pos rfl⟩

/-- The keys of the values that are filed of entries. -/
theorem count_entrySaves (k : String) (es : List (String × Json)) :
    ((es.flatMap entrySaves).map Prod.fst).count k = (es.map Prod.fst).count k +
      (es.map fun e => e.1 ++ typeOf e.2).count k + (es.map fun e => ident e.2).count k := by
  induction es with
  | nil => rfl
  | cons e es ih =>
    rw [List.flatMap_cons, List.map_append, List.count_append, ih]
    simp only [entrySaves, List.map_cons, List.map_nil, List.count_cons, List.count_nil]
    omega

theorem count_saves (k : String) (j : Json) (rs : List String) :
    ((rs.flatMap (rootSaves j)).map Prod.fst).count k =
      rs.count k + ((rs.flatMap (rootEntries j)).map Prod.fst).count k +
        ((rs.flatMap (rootEntries j)).map fun e => e.1 ++ typeOf e.2).count k +
        ((rs.flatMap (rootEntries j)).map fun e => ident e.2).count k := by
  induction rs with
  | nil => rfl
  | cons r rs ih =>
    simp only [List.flatMap_cons, List.map_append, List.count_append, rootSaves, List.map_cons, List.count_cons,
      count_entrySaves, ih]
    omega

/-- How many values a lookup finds. -/
theorem length_getList {j : Json} {m : CfgObjMap} (h : ParseJson j [] = .ok ⟨⟩ m) (k : String) :
    (m.getList k).length = (pathKeys j).count k + (idents j).count k := by
  rw [getList_ParseJson h, length_valuesAt, saves, count_saves, pathKeys, idents, allEntries, List.count_append,
    List.count_append]

/-- An entry is filed under its identifier. -/
theorem mem_getList_ident {j : Json} {m : CfgObjMap} (h : ParseJson j [] = .ok ⟨⟩ m) {e : String × Json}
    (he : e ∈ allEntries j) : e.2 ∈ m.getList (ident e.2) := by
  obtain ⟨r, hr, he⟩ := List.mem_flatMap.mp he
  rw [getList_ParseJson h]
  apply mem_valuesAt
  refine List.mem_flatMap.mpr ⟨r, hr, List.mem_cons_of_mem _ (List.mem_flatMap.mpr ⟨e, he, ?_⟩)⟩
  simp [entrySaves]

/-- A single value that is there is all of the list. -/
theorem eq_singleton {α : Type} {l : List α} {a : α} (hlen : l.length = 1) (ha : a ∈ l) : l = [a] := by
  obtain ⟨b, rfl⟩ := List.length_eq_one_iff.mp hlen
  rw [List.mem_singleton.mp ha]

/-- **Lookup by type and idx** is exact when the identifiers are unique among all keys. -/
theorem entry_exact_iff {j : Json} {m : CfgObjMap} (h : ParseJson j [] = .ok ⟨⟩ m) :
    (∀ e ∈ allEntries j, m.getList (ident e.2) = [e.2]) ↔
      (idents j).Nodup ∧ ∀ e ∈ allEntries j, ident e.2 ∉ pathKeys j := by
  have hpos : ∀ e ∈ allEntries j, 0 < (idents j).count (ident e.2) := fun e he =>
    List.count_pos_iff.mpr (List.mem_map.mpr ⟨e, he, rfl⟩)
  constructor
  · intro hexact
    have hcount : ∀ e ∈ allEntries j, (pathKeys j).count (ident e.2) = 0 ∧ (idents j).count (ident e.2) = 1 := by
      intro e he
      have hlen := length_getList h (ident e.2)
      have hp := hpos e he
      rw [hexact e he, List.length_singleton] at hlen
      omega
    refine ⟨List.nodup_iff_count_le_one.mpr fun k => ?_, fun e he => List.count_eq_zero.mp (hcount e he).1⟩
    by_cases hk : k ∈ idents j
    · obtain ⟨e, he, rfl⟩ := List.mem_map.mp hk
      exact (hcount e he).2.le
    · rw [List.count_eq_zero.mpr hk]
      exact Nat.zero_le 1
  · intro hunique e he
    have hlen := length_getList h (ident e.2)
    have hp := hpos e he
    have hone := List.nodup_iff_count_le_one.mp hunique.1 (ident e.2)
    rw [List.count_eq_zero.mpr (hunique.2 e he)] at hlen
    exact eq_singleton (by omega) (mem_getList_ident h he)

/-- **Lookup by a camera id** finds the entry that it names and no other. -/
theorem source_exact_iff {j : Json} {m : CfgObjMap} (h : ParseJson j [] = .ok ⟨⟩ m) (hdistinct : (idents j).Nodup)
    (strTransId : String) :
    ((named j strTransId).length ≤ 1 ∧ m.getList strTransId = named j strTransId) ↔
      strTransId ∉ pathKeys j ∧
        ∀ r ∈ [strAlgNode, strDbNode, strAppNode, strTaskNode], ∀ e ∈ rootEntries j r, ident e.2 ≠ strTransId := by
  have hnamed : (named j strTransId).length =
      ((rootEntries j strTransferNode).map fun e => ident e.2).count strTransId := by
    rw [named, ← List.countP_eq_length_filter, List.countP_map, List.count, List.countP_map]
    rfl
  have hsplit : (idents j).count strTransId = (named j strTransId).length +
      (([strAlgNode, strDbNode, strAppNode, strTaskNode].flatMap (rootEntries j)).map
        fun e => ident e.2).count strTransId := by
    rw [hnamed, ← List.count_append, ← List.map_append, ← List.flatMap_cons]
    rfl
  have hothers : (([strAlgNode, strDbNode, strAppNode, strTaskNode].flatMap (rootEntries j)).map
      fun e => ident e.2).count strTransId = 0 ↔
        ∀ r ∈ [strAlgNode, strDbNode, strAppNode, strTaskNode], ∀ e ∈ rootEntries j r, ident e.2 ≠ strTransId := by
    rw [List.count_eq_zero]
    constructor
    · intro hnot r hr e he heq
      exact hnot (List.mem_map.mpr ⟨e, List.mem_flatMap.mpr ⟨r, hr, he⟩, heq⟩)
    · intro hall hmem
      obtain ⟨e, he, heq⟩ := List.mem_map.mp hmem
      obtain ⟨r, hr, he⟩ := List.mem_flatMap.mp he
      exact hall r hr e he heq
  have hlen := length_getList h strTransId
  have hone := List.nodup_iff_count_le_one.mp hdistinct strTransId
  rw [← hothers, ← List.count_eq_zero]
  constructor
  · intro hexact
    rw [hexact.2] at hlen
    omega
  · intro hzero
    have hle : (named j strTransId).length ≤ 1 := by omega
    refine ⟨hle, ?_⟩
    have hsame : (m.getList strTransId).length = (named j strTransId).length := by omega
    cases hn : named j strTransId with
    | nil =>
      rw [hn] at hsame
      exact List.eq_nil_of_length_eq_zero hsame
    | cons elm rest =>
      rw [hn] at hsame hle
      obtain rfl : rest = [] := List.eq_nil_of_length_eq_zero (Nat.le_zero.mp (Nat.le_of_succ_le_succ hle))
      -- the entry is filed under its identifier, which is the id
      have hmem : elm ∈ named j strTransId := hn ▸ List.mem_cons_self
      obtain ⟨helm, hid⟩ := List.mem_filter.mp hmem
      obtain ⟨e, he, rfl⟩ := List.mem_map.mp helm
      obtain rfl : ident e.2 = strTransId := of_decide_eq_true hid
      exact eq_singleton hsame (mem_getList_ident h (List.mem_flatMap.mpr ⟨strTransferNode, by decide, he⟩))

/-- **Lookups are exact** in exactly the configurations that are unambiguous. -/
theorem lookup_exact_iff {j : Json} {m : CfgObjMap} (h : ParseJson j [] = .ok ⟨⟩ m) :
    LookupExact j m ↔ Unambiguous j := by
  constructor
  · intro hexact
    obtain ⟨hdistinct, hentry⟩ := (entry_exact_iff h).mp hexact.entry
    exact ⟨hdistinct, hentry, fun tid htid => (source_exact_iff h hdistinct tid).mp (hexact.source tid htid)⟩
  · intro hclear
    have hentry := (entry_exact_iff h).mpr ⟨hclear.distinct, hclear.entry⟩
    exact ⟨hentry, fun tid htid => (source_exact_iff h hclear.distinct tid).mpr (hclear.source tid htid)⟩

/-- A task of this type on a camera. -/
def taskOnCamera (strType : String) : Json :=
  .object [
    (strAppNode, .object [(strAppCommSafeNode, .array [.object [
      (strAttriDataSrc, .array [.object [(strAttriTransferId, .string "rtspcli1")]]), (strAttriIdx, .string "1"),
      (strAttriType, .string strType)]])]),
    (strTransferNode, .object [("SouthVideo", .array [camera "1" "10.0.78.201"])])]

theorem lookup_exact_helmet : LookupExact (taskOnCamera "HelmetDetect")
    (stateOf (ParseJson (taskOnCamera "HelmetDetect") [])) :=
  (lookup_exact_iff (m := stateOf (ParseJson (taskOnCamera "HelmetDetect") [])) rfl).mpr (by decide +kernel)

/-- A task whose type is that of a camera is found under the id of the camera. -/
theorem not_lookup_exact_rtspcli :
    ParseJson (taskOnCamera "rtspcli") [] = .ok ⟨⟩ (stateOf (ParseJson (taskOnCamera "rtspcli") [])) ∧
      DistinctPairs (taskOnCamera "rtspcli") ∧
      ((stateOf (ParseJson (taskOnCamera "rtspcli") [])).getList "rtspcli1").map typeOf = ["rtspcli", "rtspcli"] ∧
      ¬ LookupExact (taskOnCamera "rtspcli") (stateOf (ParseJson (taskOnCamera "rtspcli") [])) := by
  refine ⟨rfl, by decide +kernel, by decide +kernel, fun hexact => ?_⟩
  have hused : "rtspcli1" ∈ usedTransferIds (taskOnCamera "rtspcli") := by decide +kernel
  have hlen := congrArg List.length (hexact.source "rtspcli1" hused).2
  have hone := (hexact.source "rtspcli1" hused).1
  rw [← hlen] at hone
  revert hone
  decide +kernel

end Perception.Cfg
