import Mathlib.Data.List.Basic
import Mathlib.Data.List.Nodup
import Mathlib.Order.Lattice

/-!
# Maps as sorted entry lists

The entries of an ordered map in the order of their keys. The operations need no
well-formedness; `Sorted` is kept by all of them and makes the entry list unique.
-/
namespace Perception.Lib.SortedMap

set_option autoImplicit false

variable {κ ν : Type} [LinearOrder κ]

def find? : List (κ × ν) → κ → Option ν
  | [], _ => none
  | (k', v) :: m, k => if k = k' then some v else find? m k

/-- Put a new key at its place in the order. -/
def place : List (κ × ν) → κ → ν → List (κ × ν)
  | [], k, v => [(k, v)]
  | e :: m, k, v => if k < e.1 then (k, v) :: e :: m else e :: place m k v

/-- Assign the value of a key that is there. -/
def replace : List (κ × ν) → κ → ν → List (κ × ν)
  | [], _, _ => []
  | e :: m, k, v => if k = e.1 then (k, v) :: m else e :: replace m k v

/-- Insert, or assign when the key is there. -/
def insert (m : List (κ × ν)) (k : κ) (v : ν) : List (κ × ν) :=
  if (find? m k).isSome then replace m k v else place m k v

/-- Insert, unless the key is there. -/
def emplace (m : List (κ × ν)) (k : κ) (v : ν) : List (κ × ν) :=
  if (find? m k).isSome then m else insert m k v

def erase (m : List (κ × ν)) (k : κ) : List (κ × ν) := m.filter (fun e => e.1 ≠ k)

def keys (m : List (κ × ν)) : List κ := m.map Prod.fst

def Sorted (m : List (κ × ν)) : Prop := m.Pairwise (fun a b => a.1 < b.1)

instance (m : List (κ × ν)) : Decidable (Sorted m) := inferInstanceAs (Decidable (m.Pairwise _))

@[simp] theorem find?_nil (k : κ) : find? ([] : List (κ × ν)) k = none := rfl

theorem find?_cons (e : κ × ν) (m : List (κ × ν)) (k : κ) :
    find? (e :: m) k = if k = e.1 then some e.2 else find? m k := rfl

theorem find?_place (m : List (κ × ν)) (k : κ) (v : ν) (k' : κ) (h : find? m k = none) :
    find? (place m k v) k' = if k' = k then some v else find? m k' := by
  induction m with
  | nil => rfl
  | cons e m ih =>
    rw [find?_cons] at h
    have he : k ≠ e.1 := by
      intro he
      rw [if_pos he] at h
      cases h
    rw [if_neg he] at h
    rw [place]
    by_cases hlt : k < e.1
    · rw [if_pos hlt]
      rfl
    · rw [if_neg hlt, find?_cons, find?_cons, ih h]
      by_cases hk : k' = e.1
      · rw [if_pos hk, if_neg (fun hkk : k' = k => he (hkk ▸ hk)), if_pos hk]
      · rw [if_neg hk, if_neg hk]

theorem find?_replace (m : List (κ × ν)) (k : κ) (v : ν) (k' : κ) (h : (find? m k).isSome) :
    find? (replace m k v) k' = if k' = k then some v else find? m k' := by
  induction m with
  | nil => cases h
  | cons e m ih =>
    rw [replace]
    by_cases he : k = e.1
    · rw [if_pos he, find?_cons, find?_cons, he]
      split <;> rfl
    · rw [find?_cons, if_neg he] at h
      rw [if_neg he, find?_cons, find?_cons, ih h]
      by_cases hk : k' = e.1
      · rw [if_pos hk, if_neg (fun hkk : k' = k => he (hkk ▸ hk)), if_pos hk]
      · rw [if_neg hk, if_neg hk]

theorem find?_insert (m : List (κ × ν)) (k : κ) (v : ν) (k' : κ) :
    find? (insert m k v) k' = if k' = k then some v else find? m k' := by
  unfold insert
  split
  · next h => exact find?_replace m k v k' h
  · next h => exact find?_place m k v k' (Option.not_isSome_iff_eq_none.mp h)

/-- Assigning the value that is there changes nothing. -/
theorem insert_of_find? {m : List (κ × ν)} {k : κ} {v : ν} (h : find? m k = some v) :
    insert m k v = m := by
  have hrep : replace m k v = m := by
    induction m with
    | nil => rfl
    | cons e m ih =>
      rw [find?_cons] at h
      rw [replace]
      by_cases he : k = e.1
      · rw [if_pos he] at h
        cases h
        rw [if_pos he, he]
      · rw [if_neg he] at h
        rw [if_neg he, ih h]
  rw [insert, h]
  exact hrep

@[simp] theorem find?_insert_self (m : List (κ × ν)) (k : κ) (v : ν) :
    find? (insert m k v) k = some v := by
  rw [find?_insert, if_pos rfl]

theorem find?_insert_of_ne (m : List (κ × ν)) {k k' : κ} (v : ν) (h : k' ≠ k) :
    find? (insert m k v) k' = find? m k' := by
  rw [find?_insert, if_neg h]

theorem find?_erase (m : List (κ × ν)) (k k' : κ) :
    find? (erase m k) k' = if k' = k then none else find? m k' := by
  induction m with
  | nil => simp [erase]
  | cons e m ih =>
    rw [erase] at ih ⊢
    by_cases he : e.1 = k
    · rw [List.filter_cons_of_neg (by simpa using he), ih, find?_cons]
      by_cases hk : k' = k
      · rw [if_pos hk, if_pos hk]
      · rw [if_neg hk, if_neg hk, if_neg (fun h => hk (h.trans he))]
    · rw [List.filter_cons_of_pos (by simpa using he), find?_cons, find?_cons, ih]
      by_cases hk : k' = e.1
      · rw [if_pos hk, if_neg (fun h => he (hk ▸ h)), if_pos hk]
      · rw [if_neg hk, if_neg hk]

theorem find?_emplace (m : List (κ × ν)) (k : κ) (v : ν) (k' : κ) :
    find? (emplace m k v) k' = (find? m k').or (if k' = k then some v else none) := by
  unfold emplace
  by_cases hk : k' = k
  · rw [if_pos hk, hk]
    cases hf : find? m k with
    | none => rw [if_neg (by simp), find?_insert_self, Option.none_or]
    | some v' => rw [if_pos (Option.isSome_some), hf, Option.some_or]
  · rw [if_neg hk, Option.or_none]
    split
    · rfl
    · exact find?_insert_of_ne m v hk

theorem mem_keys {m : List (κ × ν)} {k : κ} : k ∈ keys m ↔ ∃ v, find? m k = some v := by
  induction m with
  | nil => simp [keys]
  | cons e m ih =>
    rw [keys] at ih ⊢
    rw [List.map_cons, List.mem_cons, ih, find?_cons]
    by_cases hk : k = e.1 <;> simp [hk]

theorem find?_eq_none {m : List (κ × ν)} {k : κ} : find? m k = none ↔ k ∉ keys m := by
  rw [mem_keys]
  cases find? m k <;> simp

theorem mem_of_find? {m : List (κ × ν)} {k : κ} {v : ν} (h : find? m k = some v) : (k, v) ∈ m := by
  induction m with
  | nil => cases h
  | cons e m ih =>
    rw [find?_cons] at h
    by_cases hk : k = e.1
    · rw [if_pos hk] at h
      cases h
      rw [hk]
      exact List.mem_cons_self
    · rw [if_neg hk] at h
      exact List.mem_cons_of_mem e (ih h)

theorem keys_replace (m : List (κ × ν)) (k : κ) (v : ν) : keys (replace m k v) = keys m := by
  induction m with
  | nil => rfl
  | cons e m ih =>
    rw [replace]
    by_cases he : k = e.1
    · rw [if_pos he, he]
      rfl
    · rw [if_neg he]
      exact congrArg (e.1 :: ·) ih

theorem keys_insert_of_mem {m : List (κ × ν)} {k : κ} (v : ν) (h : k ∈ keys m) :
    keys (insert m k v) = keys m := by
  obtain ⟨v', hv'⟩ := mem_keys.mp h
  rw [insert, hv']
  exact keys_replace m k v

theorem keys_place_perm (m : List (κ × ν)) (k : κ) (v : ν) : (keys (place m k v)).Perm (k :: keys m) := by
  induction m with
  | nil => exact List.Perm.refl _
  | cons e m ih =>
    rw [place]
    by_cases hlt : k < e.1
    · rw [if_pos hlt]
      exact List.Perm.refl _
    · rw [if_neg hlt]
      exact (ih.cons e.1).trans (List.Perm.swap k e.1 (keys m))

theorem keys_insert_perm {m : List (κ × ν)} {k : κ} (v : ν) (h : k ∉ keys m) :
    (keys (insert m k v)).Perm (k :: keys m) := by
  rw [insert, find?_eq_none.mpr h]
  exact keys_place_perm m k v

theorem mem_keys_emplace {m : List (κ × ν)} {k : κ} {v : ν} {k' : κ} :
    k' ∈ keys (emplace m k v) ↔ k' ∈ keys m ∨ k' = k := by
  rw [← not_iff_not, not_or, ← find?_eq_none, ← find?_eq_none, find?_emplace, Option.or_eq_none_iff]
  by_cases hk : k' = k <;> simp [hk]

theorem keys_erase (m : List (κ × ν)) (k : κ) : keys (erase m k) = (keys m).filter (· ≠ k) := by
  rw [keys, keys, erase, List.filter_map]
  rfl

theorem Sorted.keys_nodup {m : List (κ × ν)} (h : Sorted m) : (keys m).Nodup :=
  List.pairwise_map.mpr (h.imp ne_of_lt)

theorem sorted_nil : Sorted ([] : List (κ × ν)) := List.Pairwise.nil

theorem mem_place {m : List (κ × ν)} {k : κ} {v : ν} {e : κ × ν} (h : e ∈ place m k v) :
    e = (k, v) ∨ e ∈ m := by
  induction m with
  | nil => exact Or.inl (List.mem_singleton.mp h)
  | cons e' m ih =>
    rw [place] at h
    split at h
    · exact List.mem_cons.mp h
    · rcases List.mem_cons.mp h with rfl | h
      · exact Or.inr List.mem_cons_self
      · exact (ih h).imp_right (List.mem_cons_of_mem e')

theorem mem_insert {m : List (κ × ν)} {k : κ} {v : ν} {e : κ × ν} (h : e ∈ insert m k v) :
    e = (k, v) ∨ e ∈ m := by
  unfold insert at h
  split at h
  · induction m with
    | nil => cases h
    | cons e' m ih =>
      rw [replace] at h
      split at h
      · exact (List.mem_cons.mp h).imp_right (List.mem_cons_of_mem e')
      · next hne hf =>
        rcases List.mem_cons.mp h with rfl | h
        · exact .inr List.mem_cons_self
        · have hf' : (find? m k).isSome := by rwa [find?_cons, if_neg hf] at hne
          exact (ih hf' h).imp_right (List.mem_cons_of_mem e')
  · exact mem_place h

theorem mem_emplace {m : List (κ × ν)} {k : κ} {v : ν} {e : κ × ν} (h : e ∈ emplace m k v) :
    e = (k, v) ∨ e ∈ m := by
  unfold emplace at h
  split at h
  · exact .inr h
  · exact mem_insert h

theorem find?_of_forall_lt {m : List (κ × ν)} {k : κ} (h : ∀ e ∈ m, e.1 < k) : find? m k = none := by
  rw [find?_eq_none]
  intro hk
  obtain ⟨e, he, rfl⟩ := List.mem_map.mp hk
  exact lt_irrefl _ (h e he)

/-- A key above all others goes to the end. -/
theorem insert_append_new {m : List (κ × ν)} {k : κ} (v : ν) (h : ∀ e ∈ m, e.1 < k) :
    insert m k v = m ++ [(k, v)] := by
  have hnone := find?_of_forall_lt h
  rw [insert, hnone]
  show place m k v = _
  induction m with
  | nil => rfl
  | cons e m ih =>
    obtain ⟨he, hm⟩ := List.forall_mem_cons.mp h
    have hm' : find? m k = none := by rwa [find?_cons, if_neg (ne_of_gt he)] at hnone
    rw [place, if_neg (not_lt_of_gt he), ih hm hm']
    rfl

theorem emplace_append_new {m : List (κ × ν)} {k : κ} (v : ν) (h : ∀ e ∈ m, e.1 < k) :
    emplace m k v = m ++ [(k, v)] := by
  rw [emplace, find?_of_forall_lt h, Option.isSome_none, if_neg Bool.false_ne_true, insert_append_new v h]

/-- The entry of the largest key is replaced at the end. -/
theorem insert_append_last {m : List (κ × ν)} {k : κ} (v v' : ν) (h : ∀ e ∈ m, e.1 < k) :
    insert (m ++ [(k, v)]) k v' = m ++ [(k, v')] := by
  have hsome : (find? (m ++ [(k, v)]) k).isSome := by
    rw [← insert_append_new v h, find?_insert_self]
    rfl
  rw [insert, if_pos hsome]
  clear hsome
  induction m with
  | nil => rw [List.nil_append, replace, if_pos rfl]; rfl
  | cons e m ih =>
    obtain ⟨he, hm⟩ := List.forall_mem_cons.mp h
    rw [List.cons_append, replace, if_neg (ne_of_gt he), ih hm]
    rfl

theorem Sorted.replace {m : List (κ × ν)} (h : Sorted m) (k : κ) (v : ν) :
    Sorted (SortedMap.replace m k v) := by
  have hkeys : ((keys m).Pairwise (· < ·)) := List.pairwise_map.mpr h
  rw [← keys_replace m k v] at hkeys
  exact List.pairwise_map.mp hkeys

theorem Sorted.place {m : List (κ × ν)} (h : Sorted m) {k : κ} (v : ν) (hk : k ∉ keys m) :
    Sorted (SortedMap.place m k v) := by
  induction m with
  | nil => exact List.pairwise_singleton _ _
  | cons e m ih =>
    obtain ⟨hlt, hm⟩ := List.pairwise_cons.mp h
    have hne : k ≠ e.1 := fun he => hk (he ▸ List.mem_cons_self)
    rw [SortedMap.place]
    split
    · next hke =>
      refine List.pairwise_cons.mpr ⟨fun a ha => ?_, h⟩
      rcases List.mem_cons.mp ha with rfl | ha
      · exact hke
      · exact lt_trans hke (hlt a ha)
    · next hke =>
      refine List.pairwise_cons.mpr ⟨fun a ha => ?_, ih hm fun hmem => hk (List.mem_cons_of_mem _ hmem)⟩
      rcases mem_place ha with rfl | ha
      · exact lt_of_le_of_ne (not_lt.mp hke) (Ne.symm hne)
      · exact hlt a ha

theorem Sorted.insert {m : List (κ × ν)} (h : Sorted m) (k : κ) (v : ν) :
    Sorted (SortedMap.insert m k v) := by
  unfold SortedMap.insert
  split
  · exact h.replace k v
  · next hk => exact h.place v (find?_eq_none.mp (Option.not_isSome_iff_eq_none.mp hk))

theorem Sorted.erase {m : List (κ × ν)} (h : Sorted m) (k : κ) : Sorted (SortedMap.erase m k) :=
  h.filter _

/-- In a sorted map the entries are what lookup finds. -/
theorem Sorted.find?_of_mem {m : List (κ × ν)} (h : Sorted m) {k : κ} {v : ν} (hm : (k, v) ∈ m) :
    find? m k = some v := by
  induction m with
  | nil => cases hm
  | cons e m ih =>
    obtain ⟨hlt, hs⟩ := List.pairwise_cons.mp h
    rw [find?_cons]
    rcases List.mem_cons.mp hm with rfl | hm
    · rw [if_pos rfl]
    · rw [if_neg (ne_of_gt (hlt (k, v) hm)), ih hs hm]

/-- A sorted map is determined by what lookup finds. -/
theorem Sorted.ext {m m' : List (κ × ν)} (h : Sorted m) (h' : Sorted m')
    (he : ∀ k, find? m k = find? m' k) : m = m' := by
  have hmem : ∀ {a b : List (κ × ν)}, Sorted a → (∀ k, find? a k = find? b k) → ∀ e ∈ a, e ∈ b := by
    intro a b ha hab e hm
    have hf := ha.find?_of_mem (k := e.1) (v := e.2) hm
    rw [hab] at hf
    exact mem_of_find? hf
  have hnodup : ∀ {a : List (κ × ν)}, Sorted a → a.Nodup := fun ha =>
    List.Nodup.of_map Prod.fst ha.keys_nodup
  have hperm : m.Perm m' := (List.perm_ext_iff_of_nodup (hnodup h) (hnodup h')).mpr fun e =>
    ⟨hmem h he e, hmem h' (fun k => (he k).symm) e⟩
  exact hperm.eq_of_pairwise (fun a b _ _ hab hba => absurd (lt_trans hab hba) (lt_irrefl _)) h h'

end Perception.Lib.SortedMap
