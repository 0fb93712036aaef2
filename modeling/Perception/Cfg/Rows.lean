import Mathlib.Data.List.Forall2
import Perception.Db.SqliteDbSvr

/-!
# The rows of a root node

What a table is to hold: a row for every entry of the root node, in order, with a text for every
column. The rows that the table functions make are these.
-/
namespace Perception.Cfg

set_option autoImplicit false

open Perception.Lib Perception.Db StateExcept

/-- The entries of a root node, each with the name of its sub-node. -/
def entries (node : Json) : List (String × Json) :=
  node.items.flatMap fun it => it.2.elems.map fun elm => (it.1.getD "", elm)

/-- The members of a nested object as one text. -/
def membersText (members : List (String × String)) : List Char :=
  members.flatMap fun m => m.1.toList ++ ':' :: m.2.toList ++ ['|']

/-- All members of the value are texts; null has none. -/
def HasMembers (j : Json) (members : List (String × String)) : Prop :=
  j.items = members.map fun m => (some m.1, .string m.2)

/-- The text of an entry in a column: the attribute itself, or its members, or those of each element
of its list. -/
def Serialised (elm : Json) : Column → String → Prop
  | .attr name, strText => elm.find? name = some (.string strText)
  | .nested name, strText => ∃ members, HasMembers (elm.get name) members ∧
      strText = String.ofList (membersText members ++ ['&'])
  | .nestedList name, strText => ∃ groups, List.Forall₂ HasMembers (elm.get name).elems groups ∧
      strText = String.ofList (groups.flatMap fun members => membersText members ++ ['&'])

/-- A column with its text, as far as it is a C string. -/
def IsCell (elm : Json) (c : Column) (cell : String × String) : Prop :=
  ∃ strText, Serialised elm c strText ∧ cell = (c.name, c_str strText)

/-- The row of an entry: the name of its sub-node, and a cell for every column. -/
def IsRow (cols : List Column) (e : String × Json) (row : Row) : Prop :=
  ∃ cells, List.Forall₂ (IsCell e.2) cols cells ∧ row = (strAttriNode, c_str e.1) :: cells

/-- The rows of a root node: one for each entry, in order. -/
def IsSerialisation (cols : List Column) (node : Json) (rows : List Row) : Prop :=
  List.Forall₂ (IsRow cols) (entries node) rows

theorem rightUnique_hasMembers : Relator.RightUnique HasMembers := by
  intro j members members' h h'
  refine List.map_injective_iff.mpr ?_ (h.symm.trans h')
  intro m m' heq
  obtain ⟨hkey, hvalue⟩ := Prod.mk.inj heq
  exact Prod.ext (Option.some.inj hkey) (Json.string.inj hvalue)

theorem rightUnique_serialised (elm : Json) : Relator.RightUnique (Serialised elm) := by
  intro c strText strText' h h'
  cases c with
  | attr name => exact Json.string.inj (Option.some.inj (h.symm.trans h'))
  | nested name =>
    obtain ⟨members, hmembers, rfl⟩ := h
    obtain ⟨members', hmembers', rfl⟩ := h'
    rw [rightUnique_hasMembers hmembers hmembers']
  | nestedList name =>
    obtain ⟨groups, hgroups, rfl⟩ := h
    obtain ⟨groups', hgroups', rfl⟩ := h'
    rw [rightUnique_hasMembers.forall₂ hgroups hgroups']

theorem rightUnique_isCell (elm : Json) : Relator.RightUnique (IsCell elm) := by
  intro c cell cell' hcell hcell'
  obtain ⟨strText, h, rfl⟩ := hcell
  obtain ⟨strText', h', rfl⟩ := hcell'
  rw [rightUnique_serialised elm h h']

theorem rightUnique_isRow (cols : List Column) : Relator.RightUnique (IsRow cols) := by
  intro e row row' hrow hrow'
  obtain ⟨cells, h, rfl⟩ := hrow
  obtain ⟨cells', h', rfl⟩ := hrow'
  rw [(rightUnique_isCell e.2).forall₂ h h']

/-- A node has one serialisation. -/
theorem IsSerialisation.unique {cols : List Column} {node : Json} {rows rows' : List Row}
    (h : IsSerialisation cols node rows) (h' : IsSerialisation cols node rows') : rows = rows' :=
  (rightUnique_isRow cols).forall₂ h h'

/-- The text that is written for an entry. -/
def cellText (elm : Json) (c : Column) : String :=
  match c.text elm with
  | .ok t => t
  | .error _ => ""

def entryRow (cols : List Column) (e : String × Json) : Row :=
  (strAttriNode, c_str e.1) :: cols.map fun c => (c.name, c_str (cellText e.2 c))

theorem cellText_of_ok {elm : Json} {c : Column} {t : String} (h : c.text elm = .ok t) : cellText elm c = t := by
  rw [cellText, h]

theorem cell_ok {elm : Json} {c : Column} {cells : List (String × String)} (h : Column.cell elm c = .ok cells) :
    c.text elm = .ok (cellText elm c) ∧ cells = [(c.name, c_str (cellText elm c))] := by
  obtain ⟨t, ht, h⟩ := except_bind_eq_ok.mp h
  cases h
  rw [cellText_of_ok ht]
  exact ⟨ht, rfl⟩

theorem rowOf_ok {cols : List Column} {name : String} {elm : Json} {rows : List Row}
    (h : rowOf cols name elm = .ok rows) :
    (∀ c ∈ cols, c.text elm = .ok (cellText elm c)) ∧ rows = [entryRow cols (name, elm)] := by
  obtain ⟨cells, hcells, h⟩ := except_bind_eq_ok.mp h
  obtain rfl := Except.ok.inj h
  constructor
  · intro c hc
    obtain ⟨ys, hys⟩ := ok_of_collect hcells c hc
    exact (cell_ok hys).1
  · rw [eq_flatMap_of_collect (fun c _ ys hys => (cell_ok hys).2) hcells, entryRow, List.map_eq_flatMap]

theorem subNodeRows_ok {cols : List Column} {it : Option String × Json} {rows : List Row}
    (h : subNodeRows cols it = .ok rows) :
    (∀ elm ∈ it.2.elems, ∀ c ∈ cols, c.text elm = .ok (cellText elm c)) ∧
      rows = it.2.elems.map fun elm => entryRow cols (it.1.getD "", elm) := by
  obtain ⟨name, hname, h⟩ := except_bind_eq_ok.mp h
  have hget : it.1.getD "" = name := by
    cases hit : it.1 with
    | none =>
      rw [hit] at hname
      cases hname
    | some k =>
      rw [hit] at hname
      cases hname
      rfl
  constructor
  · intro elm helm
    obtain ⟨ys, hys⟩ := ok_of_collect h elm helm
    exact (rowOf_ok hys).1
  · rw [eq_flatMap_of_collect (fun elm _ ys hys => (rowOf_ok hys).2) h, hget, List.map_eq_flatMap]

/-- The rows of a root node are those of its entries, in order. -/
theorem nodeRows_ok {cols : List Column} {node : Json} {rows : List Row} (h : nodeRows cols node = .ok rows) :
    (∀ e ∈ entries node, ∀ c ∈ cols, c.text e.2 = .ok (cellText e.2 c)) ∧
      rows = (entries node).map (entryRow cols) := by
  constructor
  · intro e he
    obtain ⟨it, hit, he⟩ := List.mem_flatMap.mp he
    obtain ⟨elm, helm, rfl⟩ := List.mem_map.mp he
    obtain ⟨ys, hys⟩ := ok_of_collect h it hit
    exact (subNodeRows_ok hys).1 elm helm
  · rw [eq_flatMap_of_collect (fun it _ ys hys => (subNodeRows_ok hys).2) h, entries, List.map_flatMap]
    simp only [List.map_map, Function.comp_def]

theorem keyOf_eq_ok {key : Option String} {k : String} : Json.keyOf key = .ok k ↔ key = some k := by
  cases key <;> simp [Json.keyOf]

theorem toStr_eq_ok {value : Json} {v : String} : value.toStr = .ok v ↔ value = .string v := by
  cases value <;> simp [Json.toStr]

theorem hasMembers_of_memberText {j : Json} {chars : List Char} (h : collect memberText j.items = .ok chars) :
    ∃ members, HasMembers j members ∧ chars = membersText members := by
  unfold HasMembers
  generalize j.items = items at h
  induction items generalizing chars with
  | nil =>
    cases h
    exact ⟨[], rfl, rfl⟩
  | cons it items ih =>
    obtain ⟨ys, zs, hit, hitems, rfl⟩ := collect_cons_eq_ok.mp h
    obtain ⟨members, rfl, rfl⟩ := ih hitems
    obtain ⟨key, value⟩ := it
    obtain ⟨k, hk, hit⟩ := except_bind_eq_ok.mp hit
    obtain ⟨v, hv, hit⟩ := except_bind_eq_ok.mp hit
    obtain rfl := Except.ok.inj hit
    obtain rfl : key = some k := keyOf_eq_ok.mp hk
    obtain rfl : value = .string v := toStr_eq_ok.mp hv
    exact ⟨(k, v) :: members, rfl, rfl⟩

theorem groups_of_groupText {elems : List Json} {chars : List Char} (h : collect Column.groupText elems = .ok chars) :
    ∃ groups, List.Forall₂ HasMembers elems groups ∧
      chars = groups.flatMap fun members => membersText members ++ ['&'] := by
  induction elems generalizing chars with
  | nil =>
    cases h
    exact ⟨[], .nil, rfl⟩
  | cons subElm elems ih =>
    obtain ⟨ys, zs, hsub, helems, rfl⟩ := collect_cons_eq_ok.mp h
    obtain ⟨groups, hgroups, rfl⟩ := ih helems
    obtain ⟨text, htext, hsub⟩ := except_bind_eq_ok.mp hsub
    obtain rfl := Except.ok.inj hsub
    rw [ParseSubElmFun, if_pos rfl] at htext
    obtain ⟨members, hmembers, rfl⟩ := hasMembers_of_memberText htext
    exact ⟨members :: groups, .cons hmembers hgroups, rfl⟩

/-- What a table function writes into a column is its text. -/
theorem serialised_of_text {elm : Json} {c : Column} (hname : c.name ≠ "") {strText : String}
    (h : c.text elm = .ok strText) : Serialised elm c strText := by
  cases c with
  | attr name => exact Json.attr_eq_ok.mp h
  | nested name =>
    obtain ⟨chars, hchars, h⟩ := except_bind_eq_ok.mp h
    rw [ParseSubElmFun, if_neg (by exact hname)] at hchars
    obtain ⟨sub, hsub, hchars⟩ := except_bind_eq_ok.mp hchars
    obtain ⟨members, hmembers, rfl⟩ := hasMembers_of_memberText hchars
    rw [← Json.get_of_find? (Json.constChild_eq_ok.mp hsub)] at hmembers
    exact ⟨members, hmembers, (Except.ok.inj h).symm⟩
  | nestedList name =>
    obtain ⟨jList, hchild, h⟩ := except_bind_eq_ok.mp h
    obtain ⟨chars, hchars, h⟩ := except_bind_eq_ok.mp h
    obtain rfl := Json.child_eq_ok hchild
    obtain ⟨groups, hgroups, rfl⟩ := groups_of_groupText hchars
    exact ⟨groups, hgroups, (Except.ok.inj h).symm⟩

/-- The rows that a table function makes of a root node are its serialisation. -/
theorem isSerialisation_of_nodeRows {cols : List Column} (hnames : ∀ c ∈ cols, c.name ≠ "") {node : Json}
    {rows : List Row} (h : nodeRows cols node = .ok rows) : IsSerialisation cols node rows := by
  obtain ⟨htexts, rfl⟩ := nodeRows_ok h
  refine List.forall₂_map_right_iff.mpr (List.forall₂_same.mpr fun e he => ⟨_, ?_, rfl⟩)
  refine List.forall₂_map_right_iff.mpr (List.forall₂_same.mpr fun c hc => ⟨_, ?_, rfl⟩)
  exact serialised_of_text (hnames c hc) (htexts e he c hc)

theorem columnsOf_name_ne (r : String) : ∀ c ∈ columnsOf r, c.name ≠ "" := by
  unfold columnsOf
  split
  · decide
  · split
    · decide
    · split <;> decide

end Perception.Cfg
