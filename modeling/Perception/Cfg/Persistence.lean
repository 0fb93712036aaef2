import Perception.Cfg.LoadCfg
import Perception.Cfg.Mirror

/-!
# The configuration through the tables

Writing a configuration into empty tables and loading it again. Both ways are followed
entry by entry, and each column tells when its text is read back.
-/
namespace Perception.Cfg

set_option autoImplicit false

open Perception.Lib Perception.Db StateExcept

/-- What a column has to hold to be read back. -/
def CleanColumn (elm : Json) : Column → Prop
  | .attr name => ∀ s, elm.attr name = .ok s → NulFree s.toList
  | .nested name => ∃ j, elm.find? name = some j ∧ CleanMembers j
  | .nestedList name => ∃ xs, elm.find? name = some (.array xs) ∧ ∀ x ∈ xs, CleanMembers x ∧ x ≠ .object []

/-- An element of a list of nested objects that is read back. -/
def isCleanGroup : Json → Bool
  | .object [] => false
  | j => decide (CleanMembers j)

theorem isCleanGroup_iff {j : Json} : isCleanGroup j = true ↔ CleanMembers j ∧ j ≠ .object [] := by
  unfold isCleanGroup
  split
  · simp
  · next hne => exact decide_eq_true_iff.trans (and_iff_left hne).symm

instance (elm : Json) (c : Column) : Decidable (CleanColumn elm c) :=
  match c with
  | .attr name =>
    match h : elm.attr name with
    | .ok s => decidable_of_iff (NulFree s.toList) (by simp [CleanColumn, h])
    | .error _ => isTrue (by simp [CleanColumn, h])
  | .nested name =>
    match h : elm.find? name with
    | some j => decidable_of_iff (CleanMembers j) (by simp [CleanColumn, h])
    | none => isFalse (by simp [CleanColumn, h])
  | .nestedList name =>
    match h : elm.find? name with
    | some (.array xs) => decidable_of_iff (∀ x ∈ xs, isCleanGroup x = true) (by
        simp [CleanColumn, h, isCleanGroup_iff])
    | some .null => isFalse (by simp [CleanColumn, h])
    | some (.boolean _) => isFalse (by simp [CleanColumn, h])
    | some (.number _) => isFalse (by simp [CleanColumn, h])
    | some (.string _) => isFalse (by simp [CleanColumn, h])
    | some (.object _) => isFalse (by simp [CleanColumn, h])
    | none => isFalse (by simp [CleanColumn, h])

/-- The loading tells the columns apart by their names, the writing by their functions. -/
def Fits : Column → Bool
  | .attr name => name ∉ [strAttriId, strAttriNode, strAttriDataSrc, strAttriModel, strAttriParams]
  | .nested name => name ∈ [strAttriModel, strAttriParams]
  | .nestedList name => name = strAttriDataSrc

theorem columnsOf_fit (r : String) : ∀ c ∈ columnsOf r, Fits c = true := by
  unfold columnsOf
  split
  · decide
  · split
    · decide
    · split <;> decide

theorem columnsOf_nodup (r : String) : ((columnsOf r).map Column.name).Nodup := by
  unfold columnsOf
  split
  · decide
  · split
    · decide
    · split <;> decide

theorem SpliteStrFun_eq (s : String) :
    SpliteStrFun (c_str s).toList = (strtok '&' (cString s.toList)).map splitGroup := by
  rw [SpliteStrFun, Strtok_of_nulFree (nulFree_c_str s), c_str, String.toList_ofList]

/-- A nested object is read back exactly when it is an object of clean members. -/
theorem nested_iff {sub : Json} (hwf : sub.WellFormed) {chars : List Char}
    (h : collect memberText sub.items = .ok chars) :
    (SpliteStrFun (c_str (String.ofList (chars ++ ['&']))).toList).headD (.object []) = sub ↔ CleanMembers sub := by
  rw [SpliteStrFun_eq, String.toList_ofList]
  constructor
  · intro hsub
    have hvalue : sub = .object [] ∨ GroupValue sub := by
      cases htok : strtok '&' (cString (chars ++ ['&'])) with
      | nil =>
        rw [htok] at hsub
        exact .inl hsub.symm
      | cons group rest =>
        rw [htok] at hsub
        obtain rfl : splitGroup group = sub := hsub
        exact .inr (groupValue_splitGroup (mem_strtok (htok ▸ List.mem_cons_self)).2.1)
    rcases hvalue with rfl | hnull | hclean
    · exact ⟨[], rfl, by simp⟩
    · -- nothing is written for null, and nothing is read as an empty object
      subst hnull
      cases h
      have hnil : ([].map splitGroup).headD (Json.object []) = .null := hsub
      cases hnil
    · exact hclean.1
  · rintro ⟨m, rfl, hm⟩
    rw [collect_memberText hm] at h
    obtain rfl : groupChars m = chars := Except.ok.inj h
    obtain ⟨hnul, hamp⟩ := groupChars_clean hm
    have hnul' : NulFree (groupChars m ++ ['&']) := by
      intro hmem
      rcases List.mem_append.mp hmem with hmem | hmem
      · exact hnul hmem
      · exact absurd (List.mem_singleton.mp hmem) (by decide)
    rw [cString_eq_self.mpr hnul', strtok_piece hamp [], strtok_nil, List.append_nil]
    by_cases hne : m = []
    · subst hne
      rfl
    · have hfilter : [groupChars m].filter (!·.isEmpty) = [groupChars m] := by
        rw [List.filter_eq_self, List.forall_mem_singleton]
        cases hg : groupChars m with
        | nil => exact absurd hg (groupChars_ne_nil hne)
        | cons c cs => rfl
      rw [hfilter]
      exact splitGroup_groupChars hwf.sorted hne hm

/-- What is written for a group. -/
def valueChars : Json → List Char
  | .object m => groupChars m
  | _ => []

def groupsChars (xs : List Json) : List Char := xs.flatMap fun x => valueChars x ++ ['&']

/-- A list of objects of clean members and nulls is read back without the nulls. -/
theorem SpliteStrFun_groups {xs : List Json} (hwf : ∀ x ∈ xs, x.WellFormed) (hxs : ∀ x ∈ xs, GroupValue x) :
    SpliteStrFun (c_str (String.ofList (groupsChars xs))).toList = xs.filter (· matches .object _) := by
  have hpieces : groupsChars xs = (xs.map valueChars).flatMap (· ++ ['&']) := by
    rw [groupsChars, List.flatMap_map]
  have hclean : ∀ x ∈ xs, NulFree (valueChars x) ∧ '&' ∉ valueChars x := by
    intro x hx
    rcases hxs x hx with rfl | ⟨⟨m, rfl, hm⟩, -⟩
    · exact ⟨List.not_mem_nil, List.not_mem_nil⟩
    · exact groupChars_clean hm
  have hnul : NulFree (groupsChars xs) := by
    intro hmem
    obtain ⟨x, hx, hmem⟩ := List.mem_flatMap.mp hmem
    rcases List.mem_append.mp hmem with hmem | hmem
    · exact (hclean x hx).1 hmem
    · exact absurd (List.mem_singleton.mp hmem) (by decide)
  have hamp : ∀ p ∈ xs.map valueChars, '&' ∉ p := by
    intro p hp
    obtain ⟨x, hx, rfl⟩ := List.mem_map.mp hp
    exact (hclean x hx).2
  rw [SpliteStrFun_eq, String.toList_ofList, cString_eq_self.mpr hnul, hpieces, strtok_flatMap hamp]
  clear hpieces hclean hnul hamp
  induction xs with
  | nil => rfl
  | cons x xs ih =>
    obtain ⟨hx, hxs⟩ := List.forall_mem_cons.mp hxs
    obtain ⟨hw, hws⟩ := List.forall_mem_cons.mp hwf
    have ih := ih hws hxs
    rcases hx with rfl | ⟨⟨m, rfl, hm⟩, hne⟩
    · exact ih
    · have hm' : m ≠ [] := fun hnil => hne (congrArg Json.object hnil)
      have hkeep : (!(valueChars (.object m)).isEmpty) = true := by
        cases hg : valueChars (.object m) with
        | nil => exact absurd hg (groupChars_ne_nil hm')
        | cons c cs => rfl
      have hgroup : splitGroup (valueChars (.object m)) = .object m := splitGroup_groupChars hw.sorted hm' hm
      rw [List.map_cons, List.filter_cons_of_pos (p := fun x : List Char => !x.isEmpty) hkeep, List.map_cons, ih,
        hgroup, List.filter_cons_of_pos rfl]

/-- The text of a list of groups. -/
theorem collect_groupText {xs : List Json} (hxs : ∀ x ∈ xs, GroupValue x) :
    collect Column.groupText xs = .ok (groupsChars xs) := by
  apply collect_eq_flatMap
  intro x hx
  rcases hxs x hx with rfl | ⟨⟨m, rfl, hm⟩, -⟩
  · rfl
  · show (collect memberText (Json.object m).items >>= fun strText => pure (strText ++ ['&'])) = _
    rw [collect_memberText hm]
    rfl

/-- A list of nested objects is read back exactly when all are of clean members, and none
is empty. -/
theorem nestedList_iff {elm : Json} {name : String} (hwf : elm.WellFormed) {t : String}
    (h : (Column.nestedList name).text elm = .ok t) :
    some (Json.array (SpliteStrFun (c_str t).toList)) = elm.find? name ↔ CleanColumn elm (.nestedList name) := by
  obtain ⟨jList, hchild, h⟩ := except_bind_eq_ok.mp h
  obtain ⟨chars, hchars, h⟩ := except_bind_eq_ok.mp h
  obtain rfl : String.ofList chars = t := Except.ok.inj h
  obtain rfl := Json.child_eq_ok hchild
  -- whatever list is there, if it is made of groups, is written as such
  have hread : ∀ xs, elm.find? name = some (.array xs) → (∀ x ∈ xs, GroupValue x) →
      SpliteStrFun (c_str (String.ofList chars)).toList = xs.filter (· matches .object _) := by
    intro xs hf hxs
    have hwfs : ∀ x ∈ xs, x.WellFormed := fun x hx =>
      (hwf.find? hf).elems (by rwa [Json.elems_array])
    rw [Json.get_of_find? hf, Json.elems_array, collect_groupText hxs] at hchars
    obtain rfl : groupsChars xs = chars := Except.ok.inj hchars
    exact SpliteStrFun_groups hwfs hxs
  constructor
  · intro heq
    have hvalues : ∀ x ∈ SpliteStrFun (c_str (String.ofList chars)).toList, GroupValue x :=
      fun x hx => groupValue_SpliteStrFun hx
    have hself := (hread _ heq.symm hvalues).symm
    rw [List.filter_eq_self] at hself
    refine ⟨_, heq.symm, fun x hx => ?_⟩
    rcases hvalues x hx with rfl | hclean
    · exact absurd (hself _ hx) Bool.false_ne_true
    · exact hclean
  · rintro ⟨xs, hf, hxs⟩
    have hfilter : xs.filter (· matches .object _) = xs := by
      rw [List.filter_eq_self]
      intro x hx
      obtain ⟨⟨m, rfl, -⟩, -⟩ := hxs x hx
      rfl
    rw [hread xs hf fun x hx => .inr (hxs x hx), hfilter, hf]

/-- **One column** is read back exactly when it is clean. -/
theorem cellValue_iff {c : Column} (hfit : Fits c = true) {elm : Json} (hwf : elm.WellFormed) {t : String}
    (h : c.text elm = .ok t) : some (cellValue c.name (c_str t)) = elm.find? c.name ↔ CleanColumn elm c := by
  cases c with
  | attr name =>
    have hname : name ∉ [strAttriId, strAttriNode, strAttriDataSrc, strAttriModel, strAttriParams] :=
      of_decide_eq_true hfit
    simp only [List.mem_cons, List.not_mem_nil, or_false, not_or] at hname
    have hcell : cellValue name (c_str t) = .string (c_str t) := by
      rw [cellValue, if_neg hname.2.2.1, if_neg (not_or.mpr hname.2.2.2)]
    have hfind : elm.find? name = some (.string t) := Json.attr_eq_ok.mp h
    show some (cellValue name (c_str t)) = elm.find? name ↔ ∀ s, elm.attr name = .ok s → NulFree s.toList
    rw [hcell, hfind, Option.some.injEq, Json.string.injEq, c_str_eq_self]
    constructor
    · intro hnul s hs
      obtain rfl : t = s := Except.ok.inj (h.symm.trans hs)
      exact hnul
    · exact fun hall => hall t h
  | nested name =>
    have hname : name = strAttriModel ∨ name = strAttriParams := by
      have := of_decide_eq_true hfit
      simpa only [List.mem_cons, List.not_mem_nil, or_false] using this
    have hcell : cellValue name (c_str t) = (SpliteStrFun (c_str t).toList).headD (.object []) := by
      have hne : name ≠ strAttriDataSrc := by
        rcases hname with rfl | rfl <;> decide
      rw [cellValue, if_neg hne, if_pos hname]
    obtain ⟨strText, htext, h⟩ := except_bind_eq_ok.mp h
    obtain rfl : String.ofList (strText ++ ['&']) = t := Except.ok.inj h
    have hempty : name ≠ "" := by
      rcases hname with rfl | rfl <;> decide
    rw [ParseSubElmFun, if_neg hempty] at htext
    obtain ⟨sub, hsub, htext⟩ := except_bind_eq_ok.mp htext
    have hfind : elm.find? name = some sub := Json.constChild_eq_ok.mp hsub
    show some (cellValue name _) = elm.find? name ↔ ∃ j, elm.find? name = some j ∧ CleanMembers j
    rw [hcell, hfind, Option.some.injEq, nested_iff (hwf.find? hfind) htext]
    simp
  | nestedList name =>
    have hname : name = strAttriDataSrc := of_decide_eq_true hfit
    have hcell : cellValue name (c_str t) = .array (SpliteStrFun (c_str t).toList) := by
      rw [cellValue, if_pos hname]
    show some (cellValue name _) = elm.find? name ↔ _
    rw [hcell]
    exact nestedList_iff hwf h

/-- The entry that a row of the table becomes. -/
def loadedEntry (cols : List Column) (elm : Json) : Json :=
  putAll .null (cols.map fun c => (c.name, cellValue c.name (c_str (cellText elm c))))

theorem c_str_c_str (s : String) : c_str (c_str s) = c_str s := c_str_eq_self.mpr (nulFree_c_str s)

theorem loadRow_entryRow {cols : List Column} (hfit : ∀ c ∈ cols, Fits c = true) (e : String × Json) :
    loadRow (entryRow cols e) = (c_str e.1, loadedEntry cols e.2) := by
  have hcells : ∀ (cs : List Column) (j : Json), (∀ c ∈ cs, Fits c = true) →
      (cs.map fun c => (c.name, c_str (cellText e.2 c))).foldl loadCell (c_str e.1, j) =
        (c_str e.1, putAll j (cs.map fun c => (c.name, cellValue c.name (c_str (cellText e.2 c))))) := by
    intro cs
    induction cs with
    | nil => exact fun _ _ => rfl
    | cons c cs ih =>
      intro j hcs
      obtain ⟨hc, hcs⟩ := List.forall_mem_cons.mp hcs
      have hname : c.name ≠ strAttriId ∧ c.name ≠ strAttriNode := by
        cases c with
        | attr name =>
          have := of_decide_eq_true hc
          simp only [List.mem_cons, List.not_mem_nil, or_false, not_or] at this
          exact ⟨this.1, this.2.1⟩
        | nested name =>
          have hc : name ∈ [strAttriModel, strAttriParams] := of_decide_eq_true hc
          simp only [List.mem_cons, List.not_mem_nil, or_false] at hc
          rcases hc with rfl | rfl <;> exact ⟨by decide, by decide⟩
        | nestedList name =>
          obtain rfl : name = strAttriDataSrc := of_decide_eq_true hc
          exact ⟨by decide, by decide⟩
      have hcell : loadCell (c_str e.1, j) (c.name, c_str (cellText e.2 c)) =
          (c_str e.1, j.put c.name (cellValue c.name (c_str (cellText e.2 c)))) := by
        simp only [loadCell, if_neg hname.1, if_neg hname.2, c_str_c_str]
      rw [List.map_cons, List.foldl_cons, hcell, ih _ hcs]
      rfl
  have hnode : loadCell ("", .null) (strAttriNode, c_str e.1) = (c_str e.1, .null) := by
    simp only [loadCell, if_neg (by decide : strAttriNode ≠ strAttriId), if_true, c_str_c_str]
  rw [loadRow, entryRow, List.foldl_cons, hnode, hcells cols _ hfit]
  rfl

/-- Members that are set once can be read. -/
theorem find?_putAll {m : List (String × Json)} (hm : (m.map Prod.fst).Nodup) {j : Json} (hj : j.Document) :
    (∀ k, k ∉ m.map Prod.fst → (putAll j m).find? k = j.find? k) ∧
      ∀ e ∈ m, (putAll j m).find? e.1 = some e.2 := by
  induction m generalizing j with
  | nil => exact ⟨fun _ _ => rfl, by simp⟩
  | cons e m ih =>
    obtain ⟨hnot, hm⟩ := List.nodup_cons.mp hm
    obtain ⟨hother, hmem⟩ := ih hm (hj.put e.1 e.2)
    refine ⟨fun k hk => ?_, List.forall_mem_cons.mpr ⟨?_, hmem⟩⟩
    · obtain ⟨hke, hkm⟩ := not_or.mp fun h => hk (List.mem_cons.mpr h)
      exact (hother k hkm).trans ((hj.find?_put _ _ _).trans (if_neg hke))
    · exact (hother e.1 hnot).trans ((hj.find?_put _ _ _).trans (if_pos rfl))

theorem find?_loadedEntry {cols : List Column} (hnodup : (cols.map Column.name).Nodup) (elm : Json) {c : Column}
    (hc : c ∈ cols) : (loadedEntry cols elm).find? c.name = some (cellValue c.name (c_str (cellText elm c))) := by
  have hkeys : ((cols.map fun c => (c.name, cellValue c.name (c_str (cellText elm c)))).map Prod.fst).Nodup := by
    rwa [List.map_map]
  exact (find?_putAll hkeys (j := .null) trivial).2 _ (List.mem_map.mpr ⟨c, hc, rfl⟩)

end Perception.Cfg
