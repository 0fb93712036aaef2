import Perception.Cfg.CfgMng
import Perception.Lib.Strtok
import Mathlib.Data.List.TakeWhile

/-!
# Loading the configuration from tables

At the start the configuration is read back from the five tables. The text of a nested
object is cut with `Strtok` at '&', '|' and ':', which knows no escapes and skips empty
pieces.
-/
namespace Perception.Cfg

set_option autoImplicit false

open Perception.Lib Perception.Db StateExcept

def strAttriId : String := "id"

/-- `Strtok`, with one separator. -/
def Strtok (strSrc : List Char) (split : Char) : List (List Char) := strtok split (cString strSrc)

/-- One piece of a group, which is a name, a colon and a value. -/
def splitMember (jTmp : Json) (val : List Char) : Json :=
  match Strtok val ':' with
  | [] => jTmp
  | [strName] => jTmp.put (String.ofList strName) (.string "")
  | strName :: strAttributeVal :: _ =>
    jTmp.put (String.ofList strName) (.string (String.ofList strAttributeVal))

def splitGroup (group : List Char) : Json := (Strtok group '|').foldl splitMember .null

def SpliteStrFun (strValue : List Char) : List Json := (Strtok strValue '&').map splitGroup

/-- What the text of a column becomes. -/
def cellValue (key strValue : String) : Json :=
  if key = strAttriDataSrc then .array (SpliteStrFun strValue.toList)
  else if key = strAttriModel ∨ key = strAttriParams then
    (SpliteStrFun strValue.toList).headD (.object [])
  else .string strValue

/-- One column of a row; the name of the sub-node is kept aside. -/
def loadCell (acc : String × Json) (cell : String × String) : String × Json :=
  let strValue := c_str cell.2
  if cell.1 = strAttriId then acc
  else if cell.1 = strAttriNode then (strValue, acc.2)
  else (acc.1, acc.2.put cell.1 (cellValue cell.1 strValue))

/-- The name of the sub-node and the entry that a row becomes. -/
def loadRow (row : Row) : String × Json := row.foldl loadCell ("", .null)

def push_back (v : Json) : Json → Except Exn Unit × Json
  | .null => (.ok (), .array [v])
  | .array xs => (.ok (), .array (xs ++ [v]))
  | j => (.error (.type_error 308), j)

namespace CfgMng

def saveRow (strTableName : String) (row : Row) : Cmd Unit :=
  onCfg (Json.onPath (push_back (loadRow row).2) [.key strTableName, .key (loadRow row).1])

def LoadRuntimeSysCfgTableInDb (exFactory : CfgObjMap) (strTableName : String) : Cmd Unit :=
  match exFactory.getFirst (strDbNode ++ strDbSqliteNode) with
  | none => pure ()
  | some jSqliteSvr => do
    let _ ← fromExcept (jSqliteSvr.attr strAttriType)
    let s ← get
    (s.db.select strTableName).forM (saveRow strTableName)

/-- The tables in the order in which they are loaded. -/
def loadOrder : List String := [strTransferNode, strDbNode, strAlgNode, strTaskNode, strAppNode]

def loadTables (exFactory : CfgObjMap) : Cmd Unit := loadOrder.forM (LoadRuntimeSysCfgTableInDb exFactory)

def LoadRuntimeSysCfgInDb (exFactory : CfgObjMap) : Cmd Unit := do
  loadTables exFactory
  let s ← get
  onMap (ParseJson s.m_jRuntimeSysCfg)

end CfgMng

def NulFree (s : List Char) : Prop := Char.ofNat 0 ∉ s

/-- No separator and no NUL. -/
def CleanText (s : List Char) : Prop := NulFree s ∧ ':' ∉ s ∧ '|' ∉ s ∧ '&' ∉ s

theorem cString_nulFree (s : List Char) : NulFree (cString s) := by
  intro h
  have := List.mem_takeWhile_imp h
  simp at this

theorem cString_eq_self {s : List Char} : cString s = s ↔ NulFree s := by
  constructor
  · intro h
    rw [← h]
    exact cString_nulFree s
  · intro h
    apply List.takeWhile_eq_self_iff.mpr
    intro c hc
    simp only [ne_eq, decide_not, Bool.not_eq_true', decide_eq_false_iff_not]
    rintro rfl
    exact h hc

theorem c_str_eq_self {s : String} : c_str s = s ↔ NulFree s.toList := by
  rw [← cString_eq_self, c_str]
  constructor
  · intro h
    rw [← String.toList_ofList (l := cString s.toList), h]
  · intro h
    rw [h, String.ofList_toList]

theorem nulFree_c_str (s : String) : NulFree (c_str s).toList := by
  rw [c_str, String.toList_ofList]
  exact cString_nulFree _

theorem Strtok_of_nulFree {s : List Char} (h : NulFree s) (c : Char) : Strtok s c = strtok c s := by
  rw [Strtok, cString_eq_self.mpr h]

/-- What is cut from a text is in it. -/
theorem mem_Strtok {s t : List Char} {c : Char} (h : t ∈ Strtok s c) :
    t ≠ [] ∧ c ∉ t ∧ NulFree t ∧ ∀ x ∈ t, x ∈ s := by
  obtain ⟨hne, hc, hsub⟩ := mem_strtok h
  exact ⟨hne, hc, fun hn => cString_nulFree s (hsub _ hn), fun x hx => (List.takeWhile_sublist _).subset (hsub x hx)⟩

/-- An object whose names are not empty, whose values are texts, and all of them clean. -/
def CleanMembers (j : Json) : Prop :=
  ∃ m, j = .object m ∧ ∀ e ∈ m, e.1 ≠ "" ∧ CleanText e.1.toList ∧ ∃ s, e.2 = .string s ∧ CleanText s.toList

instance (s : List Char) : Decidable (NulFree s) := inferInstanceAs (Decidable (_ ∉ s))

instance (s : List Char) : Decidable (CleanText s) :=
  inferInstanceAs (Decidable (NulFree s ∧ ':' ∉ s ∧ '|' ∉ s ∧ '&' ∉ s))

/-- A value that is a clean text. -/
def isCleanString : Json → Bool
  | .string s => decide (CleanText s.toList)
  | _ => false

theorem isCleanString_iff {j : Json} : isCleanString j = true ↔ ∃ s, j = .string s ∧ CleanText s.toList := by
  cases j <;> simp [isCleanString]

instance (j : Json) : Decidable (CleanMembers j) :=
  match j with
  | .object m =>
    decidable_of_iff (∀ e ∈ m, e.1 ≠ "" ∧ CleanText e.1.toList ∧ isCleanString e.2 = true) (by
      simp only [CleanMembers, isCleanString_iff, Json.object.injEq, exists_eq_left'])
  | .null => isFalse (by rintro ⟨m, h, -⟩; cases h)
  | .boolean _ => isFalse (by rintro ⟨m, h, -⟩; cases h)
  | .number _ => isFalse (by rintro ⟨m, h, -⟩; cases h)
  | .string _ => isFalse (by rintro ⟨m, h, -⟩; cases h)
  | .array _ => isFalse (by rintro ⟨m, h, -⟩; cases h)

/-- What a group becomes: null when it has no members. -/
def GroupValue (j : Json) : Prop := j = .null ∨ CleanMembers j ∧ j ≠ .object []

theorem groupValue_put {j : Json} (h : GroupValue j) {k v : List Char} (hne : k ≠ []) (hk : CleanText k)
    (hv : CleanText v) : GroupValue (j.put (String.ofList k) (.string (String.ofList v))) := by
  have hnew : String.ofList k ≠ "" ∧ CleanText (String.ofList k).toList ∧
      ∃ s, Json.string (String.ofList v) = .string s ∧ CleanText s.toList := by
    rw [String.toList_ofList]
    refine ⟨fun he => hne ?_, hk, _, rfl, by rwa [String.toList_ofList]⟩
    rw [← String.toList_ofList (l := k), he]
    rfl
  rcases h with rfl | ⟨⟨m, rfl, hm⟩, -⟩
  · exact .inr ⟨⟨_, rfl, List.forall_mem_singleton.mpr hnew⟩, by simp [Json.put]⟩
  · refine .inr ⟨⟨_, rfl, fun e he => ?_⟩, fun heq => ?_⟩
    · rcases SortedMap.mem_insert he with rfl | he
      · exact hnew
      · exact hm e he
    · have hnil := Json.object.inj heq
      have hself := SortedMap.find?_insert_self m (String.ofList k) (Json.string (String.ofList v))
      rw [hnil] at hself
      cases hself

theorem cleanText_of_token {s t : List Char} (ht : t ∈ Strtok s ':') (hbar : '|' ∉ s) (hamp : '&' ∉ s) :
    t ≠ [] ∧ CleanText t := by
  obtain ⟨hne, hcolon, hnul, hsub⟩ := mem_Strtok ht
  exact ⟨hne, hnul, hcolon, fun h => hbar (hsub _ h), fun h => hamp (hsub _ h)⟩

theorem cleanText_nil : CleanText [] := by simp [CleanText, NulFree]

theorem groupValue_splitMember {j : Json} (h : GroupValue j) {val : List Char} (hbar : '|' ∉ val)
    (hamp : '&' ∉ val) : GroupValue (splitMember j val) := by
  unfold splitMember
  split
  · exact h
  · next strName heq =>
    obtain ⟨hne, hclean⟩ := cleanText_of_token (heq ▸ List.mem_cons_self) hbar hamp
    exact groupValue_put h hne hclean cleanText_nil
  · next strName strValue _ heq =>
    obtain ⟨hne, hclean⟩ := cleanText_of_token (heq ▸ List.mem_cons_self) hbar hamp
    obtain ⟨-, hvalue⟩ := cleanText_of_token (heq ▸ List.mem_cons_of_mem _ List.mem_cons_self) hbar hamp
    exact groupValue_put h hne hclean hvalue

/-- **What is loaded is clean.** -/
theorem groupValue_splitGroup {group : List Char} (hamp : '&' ∉ group) : GroupValue (splitGroup group) := by
  have hloop : ∀ (vals : List (List Char)) (j : Json), (∀ val ∈ vals, '|' ∉ val ∧ '&' ∉ val) → GroupValue j →
      GroupValue (vals.foldl splitMember j) := by
    intro vals
    induction vals with
    | nil => exact fun j _ hj => hj
    | cons val vals ih =>
      intro j hvals hj
      obtain ⟨⟨hbar, hamp⟩, hvals⟩ := List.forall_mem_cons.mp hvals
      exact ih _ hvals (groupValue_splitMember hj hbar hamp)
  refine hloop _ _ (fun val hval => ?_) (.inl rfl)
  obtain ⟨-, hbar, -, hsub⟩ := mem_Strtok hval
  exact ⟨hbar, fun h => hamp (hsub _ h)⟩

theorem groupValue_SpliteStrFun {s : List Char} {v : Json} (h : v ∈ SpliteStrFun s) : GroupValue v := by
  obtain ⟨group, hgroup, rfl⟩ := List.mem_map.mp h
  exact groupValue_splitGroup (mem_Strtok hgroup).2.1

/-- The piece of a member. -/
def memberPiece (e : String × Json) : List Char :=
  e.1.toList ++ ':' :: (match e.2 with | .string s => s.toList | _ => [])

/-- The text of an object of clean members. -/
def groupChars (m : List (String × Json)) : List Char := m.flatMap fun e => memberPiece e ++ ['|']

theorem memberPiece_clean {e : String × Json} (hk : CleanText e.1.toList) {s : String} (he : e.2 = .string s)
    (hs : CleanText s.toList) : NulFree (memberPiece e) ∧ '|' ∉ memberPiece e ∧ '&' ∉ memberPiece e := by
  obtain ⟨hk₀, -, hk₁, hk₂⟩ := hk
  obtain ⟨hs₀, -, hs₁, hs₂⟩ := hs
  simp only [memberPiece, he, NulFree, List.mem_append, List.mem_cons, not_or]
  exact ⟨⟨hk₀, by decide, hs₀⟩, ⟨hk₁, by decide, hs₁⟩, hk₂, by decide, hs₂⟩

theorem splitMember_piece {e : String × Json} (hne : e.1 ≠ "") (hk : CleanText e.1.toList) {s : String}
    (he : e.2 = .string s) (hs : CleanText s.toList) (j : Json) :
    splitMember j (memberPiece e) = j.put e.1 e.2 := by
  have hnul := (memberPiece_clean hk he hs).1
  have hne' : e.1.toList ≠ [] := fun h => hne (String.toList_eq_nil_iff.mp h)
  have htok : Strtok (memberPiece e) ':' = e.1.toList :: strtok ':' s.toList := by
    rw [Strtok_of_nulFree hnul, memberPiece, he, strtok_append_cons, strtok_of_not_mem hk.2.1 hne']
    rfl
  unfold splitMember
  rw [htok, he]
  by_cases hempty : s.toList = []
  · rw [hempty, strtok_nil]
    have hs' : s = "" := String.toList_eq_nil_iff.mp hempty
    rw [hs']
    show j.put (String.ofList e.1.toList) _ = _
    rw [String.ofList_toList]
  · rw [strtok_of_not_mem hs.2.1 hempty]
    show j.put (String.ofList e.1.toList) (.string (String.ofList s.toList)) = _
    rw [String.ofList_toList, String.ofList_toList]

/-- Members that are set one after the other. -/
def putAll (j : Json) (m : List (String × Json)) : Json := m.foldl (fun j e => j.put e.1 e.2) j

/-- Members that are set in the order of their names. -/
theorem putAll_sorted {m : List (String × Json)} (hm : SortedMap.Sorted m) (hne : m ≠ []) :
    putAll .null m = .object m := by
  have hloop : ∀ (rest pre : List (String × Json)), SortedMap.Sorted (pre ++ rest) →
      putAll (.object pre) rest = .object (pre ++ rest) := by
    intro rest
    induction rest with
    | nil => exact fun pre _ => by rw [List.append_nil]; rfl
    | cons e rest ih =>
      intro pre hs
      have hlt : ∀ x ∈ pre, x.1 < e.1 := fun x hx =>
        (List.pairwise_append.mp hs).2.2 x hx e List.mem_cons_self
      have happ : pre ++ e :: rest = (pre ++ [e]) ++ rest := by simp
      rw [happ] at hs ⊢
      show putAll (.object (SortedMap.insert pre e.1 e.2)) rest = _
      rw [SortedMap.insert_append_new _ hlt]
      exact ih _ hs
  cases m with
  | nil => exact absurd rfl hne
  | cons e rest => exact hloop rest [e] hm

theorem groupChars_clean {m : List (String × Json)}
    (hm : ∀ e ∈ m, e.1 ≠ "" ∧ CleanText e.1.toList ∧ ∃ s, e.2 = .string s ∧ CleanText s.toList) :
    NulFree (groupChars m) ∧ '&' ∉ groupChars m := by
  constructor
  · intro h
    obtain ⟨e, he, hmem⟩ := List.mem_flatMap.mp h
    obtain ⟨-, hk, s, hs, hclean⟩ := hm e he
    rcases List.mem_append.mp hmem with hmem | hmem
    · exact (memberPiece_clean hk hs hclean).1 hmem
    · exact absurd (List.mem_singleton.mp hmem) (by decide)
  · intro h
    obtain ⟨e, he, hmem⟩ := List.mem_flatMap.mp h
    obtain ⟨-, hk, s, hs, hclean⟩ := hm e he
    rcases List.mem_append.mp hmem with hmem | hmem
    · exact (memberPiece_clean hk hs hclean).2.2 hmem
    · exact absurd (List.mem_singleton.mp hmem) (by decide)

theorem groupChars_ne_nil {m : List (String × Json)} (hne : m ≠ []) : groupChars m ≠ [] := by
  cases m with
  | nil => exact absurd rfl hne
  | cons e m =>
    rw [groupChars, List.flatMap_cons]
    simp

/-- **A group of clean members is read back.** -/
theorem splitGroup_groupChars {m : List (String × Json)} (hs : SortedMap.Sorted m) (hne : m ≠ [])
    (hm : ∀ e ∈ m, e.1 ≠ "" ∧ CleanText e.1.toList ∧ ∃ s, e.2 = .string s ∧ CleanText s.toList) :
    splitGroup (groupChars m) = .object m := by
  have htok : Strtok (groupChars m) '|' = m.map memberPiece := by
    have hpieces : ∀ p ∈ m.map memberPiece, '|' ∉ p := by
      intro p hp
      obtain ⟨e, he, rfl⟩ := List.mem_map.mp hp
      obtain ⟨-, hk, s, hs, hclean⟩ := hm e he
      exact (memberPiece_clean hk hs hclean).2.1
    have hflat : groupChars m = (m.map memberPiece).flatMap (· ++ ['|']) := by
      rw [groupChars, List.flatMap_map]
    rw [Strtok_of_nulFree (groupChars_clean hm).1, hflat, strtok_flatMap hpieces, List.filter_eq_self]
    intro p hp
    obtain ⟨e, -, rfl⟩ := List.mem_map.mp hp
    cases hchars : e.1.toList <;> simp [memberPiece, hchars]
  have hloop : ∀ (rest : List (String × Json)) (j : Json),
      (∀ e ∈ rest, e.1 ≠ "" ∧ CleanText e.1.toList ∧ ∃ s, e.2 = .string s ∧ CleanText s.toList) →
      (rest.map memberPiece).foldl splitMember j = putAll j rest := by
    intro rest
    induction rest with
    | nil => exact fun _ _ => rfl
    | cons e rest ih =>
      intro j hrest
      obtain ⟨⟨hname, hk, s, he, hclean⟩, hrest⟩ := List.forall_mem_cons.mp hrest
      rw [List.map_cons, List.foldl_cons, splitMember_piece hname hk he hclean, ih _ hrest]
      rfl
  rw [splitGroup, htok, hloop m .null hm, putAll_sorted hs hne]

/-- What the table functions make of an object of clean members. -/
theorem collect_memberText {m : List (String × Json)}
    (hm : ∀ e ∈ m, e.1 ≠ "" ∧ CleanText e.1.toList ∧ ∃ s, e.2 = .string s ∧ CleanText s.toList) :
    collect memberText (Json.object m).items = .ok (groupChars m) := by
  have hitems : groupChars m = (Json.object m).items.flatMap
      fun it => memberPiece (it.1.getD "", it.2) ++ ['|'] := by
    show groupChars m = (m.map fun e => (some e.1, e.2)).flatMap _
    rw [List.flatMap_map]
    rfl
  rw [hitems]
  apply collect_eq_flatMap
  intro it hit
  obtain ⟨e, he, rfl⟩ := List.mem_map.mp hit
  obtain ⟨-, -, s, hs, -⟩ := hm e he
  show memberText (some e.1, e.2) = .ok (memberPiece e ++ ['|'])
  simp only [memberText, memberPiece, hs]
  rfl

end Perception.Cfg
