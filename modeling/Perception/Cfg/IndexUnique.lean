import Perception.Cfg.Allocation
import Perception.Cfg.Mirror

/-!
# When the indices of a sub-node are distinct

A new entry gets an index above all that the replaced sub-node uses. The entries that come
with an index are not looked at, so the indices are distinct exactly when none of them is
one of the new ones.
-/
namespace Perception.Cfg

set_option autoImplicit false

open Perception.Lib Perception.Db StateExcept

/-- The index texts of the entries of a sub-node. -/
def idxTexts (v : Json) : List String := v.elems.filterMap fun obj => (obj.attr strAttriIdx).toOption

/-- Those that are given. -/
def givenIdx (v : Json) : List String := (idxTexts v).filter (· ≠ "-1")

/-- The largest index in use, 0 when there is none. -/
def largestIdx (v : Json) : Int := ((givenIdx v).map atoi).foldl max 0

/-- The next `n` indices after `M`. -/
def nextIdx (M : Int) : Nat → List String
  | 0 => []
  | n + 1 => toString (M + 1) :: nextIdx (M + 1) n

/-- No given index of the new sub-node is among those that its new entries get. -/
def IdxFree (old v : Json) : Prop :=
  ∀ i ∈ givenIdx v, i ∉ nextIdx (largestIdx old) ((idxTexts v).count "-1")

instance (old v : Json) : Decidable (IdxFree old v) := inferInstanceAs (Decidable (∀ _ ∈ _, _ ∉ _))

/-- What the second loop makes of the index texts. -/
def renumber (M : Int) : List String → List String
  | [] => []
  | i :: is => if i = "-1" then toString (M + 1) :: renumber (M + 1) is else i :: renumber M is

/-- The given indices stay, the new entries get the next. -/
theorem renumber_perm (M : Int) (is : List String) :
    (renumber M is).Perm (is.filter (· ≠ "-1") ++ nextIdx M (is.count "-1")) := by
  induction is generalizing M with
  | nil => exact List.Perm.refl _
  | cons i is ih =>
    rw [renumber]
    by_cases hi : i = "-1"
    · rw [if_pos hi, hi, List.filter_cons_of_neg (by simp), List.count_cons_self, nextIdx]
      exact ((ih (M + 1)).cons _).trans List.perm_middle.symm
    · rw [if_neg hi, List.filter_cons_of_pos (by simpa using hi), List.count_cons_of_ne hi]
      exact (ih M).cons i

theorem mem_nextIdx {M : Int} {n : Nat} {i : String} (h : i ∈ nextIdx M n) :
    ∃ m : Int, M < m ∧ m ≤ M + n ∧ i = toString m := by
  induction n generalizing M with
  | zero => cases h
  | succ n ih =>
    rcases List.mem_cons.mp h with rfl | h
    · exact ⟨M + 1, by omega, by omega, rfl⟩
    · obtain ⟨m, hlt, hle, hi⟩ := ih h
      exact ⟨m, by omega, by omega, hi⟩

theorem nextIdx_nodup {M : Int} {n : Nat} (h₀ : 0 ≤ M) (h₁ : M + n ≤ 2147483647) : (nextIdx M n).Nodup := by
  induction n generalizing M with
  | zero => exact List.nodup_nil
  | succ n ih =>
    refine List.nodup_cons.mpr ⟨fun hmem => ?_, ih (by omega) (by omega)⟩
    obtain ⟨m, hlt, hle, heq⟩ := mem_nextIdx hmem
    have hval := congrArg atoi heq
    rw [atoi_toString (by omega) (by omega), atoi_toString (by omega) (by omega)] at hval
    omega

theorem minus_one_not_mem_renumber {M : Int} {is : List String} (h₀ : 0 ≤ M)
    (h₁ : M + is.count "-1" ≤ 2147483647) : "-1" ∉ renumber M is := by
  rw [(renumber_perm M is).mem_iff, List.mem_append, not_or]
  refine ⟨by simp, fun hmem => ?_⟩
  obtain ⟨m, hlt, hle, heq⟩ := mem_nextIdx hmem
  exact toString_ne_minus_one (by omega) (by omega) heq.symm

theorem renumber_nodup_iff {M : Int} {is : List String} (h₀ : 0 ≤ M) (h₁ : M + is.count "-1" ≤ 2147483647)
    (hgiven : (is.filter (· ≠ "-1")).Nodup) :
    (renumber M is).Nodup ↔ ∀ i ∈ is.filter (· ≠ "-1"), i ∉ nextIdx M (is.count "-1") := by
  rw [(renumber_perm M is).nodup_iff, List.nodup_append']
  constructor
  · rintro ⟨-, -, hdisj⟩ i hi hmem
    exact hdisj hi hmem
  · intro hfree
    exact ⟨hgiven, nextIdx_nodup h₀ h₁, fun i hi hmem => hfree i hi hmem⟩

theorem idxTexts_cons {obj : Json} {objs : List Json} {i : String} (h : obj.attr strAttriIdx = .ok i) :
    (obj :: objs).filterMap (fun obj => (obj.attr strAttriIdx).toOption) =
      i :: objs.filterMap fun obj => (obj.attr strAttriIdx).toOption :=
  List.filterMap_cons_some (by rw [h]; rfl)

/-- The second loop on the index texts, with the bound that it keeps. -/
theorem idxTexts_fillIdx {M : Int} {objs objs' : List Json} (h : fillIdx M objs = .ok objs')
    (hM : M ≤ 2147483647) :
    objs'.filterMap (fun obj => (obj.attr strAttriIdx).toOption) =
        renumber M (objs.filterMap fun obj => (obj.attr strAttriIdx).toOption) ∧
      M + (objs.filterMap fun obj => (obj.attr strAttriIdx).toOption).count "-1" ≤ 2147483647 := by
  induction objs generalizing M objs' with
  | nil =>
    cases h
    refine ⟨rfl, ?_⟩
    simpa using hM
  | cons obj objs ih =>
    obtain ⟨i, obj', M', rest, hi, hrest, rfl, hle, hcase⟩ := fillIdx_cons_eq_ok h
    rw [idxTexts_cons hi, renumber]
    by_cases hnew : i = "-1"
    · rw [if_pos hnew] at hcase ⊢
      obtain ⟨rfl, hlt, -, hattr⟩ := hcase
      obtain ⟨htexts, hbound⟩ := ih hrest (by omega)
      rw [idxTexts_cons hattr, htexts, hnew, List.count_cons_self]
      exact ⟨rfl, by omega⟩
    · rw [if_neg hnew] at hcase ⊢
      obtain ⟨rfl, rfl⟩ := hcase
      obtain ⟨htexts, hbound⟩ := ih hrest hM
      rw [idxTexts_cons hi, htexts, List.count_cons_of_ne hnew]
      exact ⟨rfl, hbound⟩

/-- The first loop computes the largest index in use. -/
theorem maxIdx_eq {n M : Int} {objs : List Json} (h : (maxIdx n objs).1 = .ok M) :
    M = (((objs.filterMap fun obj => (obj.attr strAttriIdx).toOption).filter (· ≠ "-1")).map atoi).foldl max n := by
  induction objs generalizing n with
  | nil =>
    cases h
    rfl
  | cons obj objs ih =>
    rw [maxIdx] at h
    rcases hread : obj.readStr [.key strAttriIdx] with ⟨res, obj'⟩
    cases res with
    | error e =>
      rw [hread] at h
      cases h
    | ok i =>
      rw [hread] at h
      change (maxIdx (if i ≠ "-1" then max n (atoi i) else n) objs).1 = .ok M at h
      have hattr : obj.attr strAttriIdx = .ok i := by
        cases obj with
        | object m => exact congrArg Prod.fst hread
        | _ => cases hread
      rw [ih h, idxTexts_cons hattr]
      by_cases hi : i = "-1"
      · rw [if_neg (not_not.mpr hi), List.filter_cons_of_neg (by simpa using hi)]
      · rw [if_pos hi, List.filter_cons_of_pos (by simpa using hi)]
        rfl

theorem le_foldl_max (l : List Int) (n : Int) : n ≤ l.foldl max n := by
  induction l generalizing n with
  | nil => exact le_refl n
  | cons a l ih => exact (le_max_left n a).trans (ih _)

theorem foldl_max_le {l : List Int} {n b : Int} (hn : n ≤ b) (hl : ∀ a ∈ l, a ≤ b) : l.foldl max n ≤ b := by
  induction l generalizing n with
  | nil => exact hn
  | cons a l ih =>
    obtain ⟨ha, hl⟩ := List.forall_mem_cons.mp hl
    exact ih (max_le hn ha) hl

/-- `atoi` yields an `int`. -/
theorem atoi_le (s : String) : atoi s ≤ 2147483647 := by
  have hlt : ∀ x : Int, x.bmod 4294967296 < 2147483648 := fun x => Int.bmod_lt (by decide)
  exact Int.le_of_lt_add_one (hlt _)

theorem largestIdx_nonneg (v : Json) : 0 ≤ largestIdx v := le_foldl_max _ 0

theorem largestIdx_le (v : Json) : largestIdx v ≤ 2147483647 := by
  apply foldl_max_le (by decide)
  intro a ha
  obtain ⟨s, -, rfl⟩ := List.mem_map.mp ha
  exact atoi_le s

/-- **One sub-node.** When the given indices are distinct, all are after the update exactly
if no given one is among the new. -/
theorem allocated_iff {old v' : Json} {it : Option String × Json} (h : Allocated old it v')
    (hgiven : (givenIdx it.2).Nodup) :
    ((idxTexts v').Nodup ∧ "-1" ∉ idxTexts v') ↔ ∀ k, it.1 = some k → IdxFree (old.get k) it.2 := by
  obtain ⟨k, M, objs, hk, hmax, hfill, rfl⟩ := h
  obtain rfl : M = largestIdx (old.get k) := maxIdx_eq hmax
  obtain ⟨htexts, hbound⟩ := idxTexts_fillIdx hfill (largestIdx_le _)
  have hidx : idxTexts (it.2.withElems objs) = renumber (largestIdx (old.get k)) (idxTexts it.2) := by
    rw [idxTexts, elems_withElems_fillIdx hfill, htexts]
    rfl
  change largestIdx (old.get k) + (idxTexts it.2).count "-1" ≤ 2147483647 at hbound
  rw [hidx, renumber_nodup_iff (largestIdx_nonneg _) hbound hgiven,
    and_iff_left (minus_one_not_mem_renumber (largestIdx_nonneg _) hbound)]
  constructor
  · intro hfree k' hk'
    obtain rfl : k = k' := Option.some.inj (hk.symm.trans hk')
    exact hfree
  · exact fun hall => hall k hk

namespace CfgMng

theorem elems_of_allocated {old j : Json} {vs : List Json} (h : List.Forall₂ (Allocated old) j.items vs)
    (hkey : ∀ it ∈ j.items, ∃ k, it.1 = some k) : (j.withElems vs).elems = vs := by
  cases j with
  | object m =>
    apply Json.elems_withElems_object
    rw [← h.length_eq]
    exact List.length_map _
  | null =>
    cases h
    rfl
  | array xs =>
    cases xs with
    | nil =>
      cases h
      rfl
    | cons x xs =>
      obtain ⟨k, hk⟩ := hkey (none, x) List.mem_cons_self
      cases hk
  | _ =>
    obtain ⟨k, hk⟩ := hkey _ List.mem_cons_self
    cases hk

/-- **Distinct indices.** After an update in whose body the given indices of each sub-node
are distinct, those of each sub-node are distinct, and none is -1, exactly if in each no
given index is one of the new. -/
theorem idx_distinct_iff {exFactory : CfgObjMap} {r : String} {jSubNode : Json} {s s' : CfgMng}
    (hd : s.m_jRuntimeSysCfg.Document) (h : RuntimeSysCfgUpdate exFactory r jSubNode s = .ok ⟨⟩ s')
    (hgiven : ∀ it ∈ jSubNode.items, (givenIdx it.2).Nodup) :
    (∀ v ∈ (s'.m_jRuntimeSysCfg.get r).elems, (idxTexts v).Nodup ∧ "-1" ∉ idxTexts v) ↔
      ∀ it ∈ jSubNode.items, ∀ k, it.1 = some k → IdxFree ((s.m_jRuntimeSysCfg.get r).get k) it.2 := by
  obtain ⟨vs, s₁, s₂, halloc, hfind, -, -, -, hupd⟩ := RuntimeSysCfgUpdate_ok h
  obtain ⟨hall, hsubs⟩ := allocSubNodes_ok hd halloc
  have hnode : s'.m_jRuntimeSysCfg.get r = jSubNode.withElems vs := by
    have hcfg := (stateOf_updateDb_cfg exFactory r s₂).1
    rw [hupd] at hcfg
    rw [show s'.m_jRuntimeSysCfg = s₂.m_jRuntimeSysCfg from hcfg]
    exact Json.get_of_find? ((hfind r).trans (if_pos rfl))
  rw [hnode, elems_of_allocated hall fun it hit => (hsubs it hit).imp fun k hk => hk.1]
  clear hnode hupd hfind halloc hsubs h
  generalize jSubNode.items = its at hall hgiven
  induction hall with
  | nil => simp
  | cons hone _ ih =>
    obtain ⟨hg, hgs⟩ := List.forall_mem_cons.mp hgiven
    rw [List.forall_mem_cons, List.forall_mem_cons]
    exact and_congr (allocated_iff hone hg) (ih hgs)

/-- One server with an index and a new one. -/
def twoServersNode (idx : String) : Json :=
  let entry (idx port : String) : Json :=
    .object [("desc", .string "tcp server"), ("enable", .string "1"), ("idx", .string idx),
      ("ip", .string "127.0.0.1"), ("params", .object [("threads", .string "50")]), ("port", .string port),
      ("type", .string "tcpsrv")]
  .object [("SouthTcpSvr", .array [entry idx "12315", entry "-1" "12316"])]

/-- The new server gets the index 1, the other has 7. -/
theorem idx_distinct_seven : ∃ s',
    RuntimeSysCfgUpdate exFactorySqlite strTransferNode (twoServersNode "7") databaseOnly = .ok ⟨⟩ s' ∧
      ∀ v ∈ (s'.m_jRuntimeSysCfg.get strTransferNode).elems, (idxTexts v).Nodup ∧ "-1" ∉ idxTexts v := by
  have hrun : RuntimeSysCfgUpdate exFactorySqlite strTransferNode (twoServersNode "7") databaseOnly =
      .ok ⟨⟩ (stateOf (RuntimeSysCfgUpdate exFactorySqlite strTransferNode (twoServersNode "7") databaseOnly)) := rfl
  have hd : databaseOnly.m_jRuntimeSysCfg.Document := by
    show SortedMap.Sorted _
    decide
  refine ⟨_, hrun, (idx_distinct_iff hd hrun ?_).mpr ?_⟩
  · intro it hit
    obtain rfl := List.mem_singleton.mp hit
    decide +kernel
  · intro it hit k hk
    obtain rfl := List.mem_singleton.mp hit
    obtain rfl := Option.some.inj hk
    decide +kernel

/-- The new server gets the index that the other has. -/
theorem not_idx_distinct_one : (∀ it ∈ (twoServersNode "1").items, (givenIdx it.2).Nodup) ∧ ∃ s',
    RuntimeSysCfgUpdate exFactorySqlite strTransferNode (twoServersNode "1") databaseOnly = .ok ⟨⟩ s' ∧
      (s'.m_jRuntimeSysCfg.get strTransferNode).elems.map idxTexts = [["1", "1"]] ∧
      ¬ ∀ v ∈ (s'.m_jRuntimeSysCfg.get strTransferNode).elems, (idxTexts v).Nodup ∧ "-1" ∉ idxTexts v := by
  constructor
  · intro it hit
    obtain rfl := List.mem_singleton.mp hit
    decide +kernel
  · exact ⟨_, rfl, by decide +kernel, by decide +kernel⟩

end CfgMng

end Perception.Cfg
