import Mathlib.Algebra.BigOperators.Fin
import Mathlib.Data.Fintype.BigOperators
import Mathlib.Logic.Function.Basic

/-!
# The trie

A `link_type` is NULL or points to a node, which nothing else points to. Words are the lists of what
`index` makes of their characters.
-/
namespace Perception.DataStruct

set_option autoImplicit false

/-- `trie_node<Size>*`. -/
inductive link_type (Size : Nat) where
  | null
  | ptr (freq node : Int) (child : Fin Size → link_type Size)

namespace link_type

variable {Size : Nat}

def new_node : link_type Size := .ptr 0 0 fun _ => .null

/-- `++` of an `int`. -/
def increment (n : Int) : Option Int := if n < 2147483647 then some (n + 1) else none

/-- `insert` from the node `cur` on. -/
def insert : List (Fin Size) → link_type Size → Option (link_type Size)
  | _, .null => none
  | [], .ptr freq node child => (increment freq).map fun freq => .ptr freq node child
  | c :: word, .ptr freq node child =>
    match child c with
    | .null => (insert word new_node).map fun next => .ptr freq (node + 1) (Function.update child c next)
    | .ptr f n d => (insert word (.ptr f n d)).map fun next => .ptr freq node (Function.update child c next)

def getfreq : List (Fin Size) → link_type Size → Int
  | _, .null => 0
  | [], .ptr freq _ _ => freq
  | c :: word, .ptr _ _ child => getfreq word (child c)

/-- What `erase_node` leaves at the link, its `result`, and whether the caller deletes the node. -/
structure Erased (Size : Nat) where
  cur : link_type Size
  result : Bool
  deletable : Bool

def erase_node : List (Fin Size) → link_type Size → Erased Size
  | _, .null => ⟨.null, false, false⟩
  | [], .ptr freq node child =>
    let left := if freq ≠ 0 then freq - 1 else freq
    ⟨.ptr left node child, decide (0 < freq), decide (left = 0 ∧ node = 0)⟩
  | c :: word, .ptr freq node child =>
    let next := erase_node word (child c)
    if next.deletable then
      ⟨.ptr freq (node - 1) (Function.update child c .null), next.result, decide (node - 1 = 0 ∧ freq = 0)⟩
    else ⟨.ptr freq node (Function.update child c next.cur), next.result, false⟩

/-- What the loop of `clear_node` has deleted, and the node that it clears. -/
structure Cleared (Size : Nat) where
  deleted : Nat
  node : Int
  child : Fin Size → link_type Size

/-- The loop of `clear_node`, which ends when the counter is zero; `below i` nodes are deleted below
the child `i`. -/
def clear_loop (below : Fin Size → Nat) : List (Fin Size) → Cleared Size → Cleared Size
  | [], s => s
  | i :: is, s =>
    match s.child i with
    | .null => clear_loop below is s
    | .ptr _ _ _ =>
      let s : Cleared Size := ⟨s.deleted + (below i + 1), s.node - 1, Function.update s.child i .null⟩
      if s.node = 0 then s else clear_loop below is s

def clear_node : link_type Size → Cleared Size
  | .null => ⟨0, 0, fun _ => .null⟩
  | .ptr _ node child => clear_loop (fun i => (clear_node (child i)).deleted) (List.finRange Size) ⟨0, node, child⟩

/-- `clear` of the trie with this root. -/
def clear : link_type Size → link_type Size
  | .null => .null
  | .ptr freq node child => .ptr freq (clear_node (.ptr freq node child)).node fun _ => .null

def present : link_type Size → Nat
  | .null => 0
  | .ptr _ _ _ => 1

/-- The number of children. -/
def children (child : Fin Size → link_type Size) : Nat := ∑ i, (child i).present

/-- No counter is wrong, and no branch ends at a node that is not a word. -/
def WellFormed : link_type Size → Prop
  | .null => True
  | .ptr freq node child =>
    0 ≤ freq ∧ node = children child ∧ (node = 0 → 0 < freq) ∧ ∀ i, (child i).WellFormed

/-- The root may be a leaf. -/
def Root : link_type Size → Prop
  | .null => False
  | .ptr freq node child => 0 ≤ freq ∧ node = children child ∧ ∀ i, (child i).WellFormed

variable {t t' : link_type Size} {freq node : Int} {child : Fin Size → link_type Size}

theorem WellFormed.root (h : (ptr freq node child).WellFormed) : (ptr freq node child).Root := by
  obtain ⟨hfreq, hnode, -, hchild⟩ := h
  exact ⟨hfreq, hnode, hchild⟩

theorem root_of_either (h : (ptr freq node child).Root ∨ (ptr freq node child).WellFormed) :
    (ptr freq node child).Root := h.elim id WellFormed.root

theorem children_update (child : Fin Size → link_type Size) (c : Fin Size) (next : link_type Size) :
    children (Function.update child c next) + (child c).present = children child + next.present := by
  have hrest : ∑ i ∈ Finset.univ.erase c, (Function.update child c next i).present =
      ∑ i ∈ Finset.univ.erase c, (child i).present := by
    apply Finset.sum_congr rfl
    intro i hi
    rw [Function.update_of_ne (Finset.ne_of_mem_erase hi)]
  have hold := Finset.add_sum_erase Finset.univ (fun i => (child i).present) (Finset.mem_univ c)
  have hnew := Finset.add_sum_erase Finset.univ (fun i => (Function.update child c next i).present) (Finset.mem_univ c)
  rw [hrest, Function.update_self] at hnew
  unfold children
  omega

theorem children_eq_zero : children child = 0 ↔ ∀ i, child i = .null := by
  have hpresent (i : Fin Size) : (child i).present = 0 ↔ child i = .null := by
    cases child i with
    | null => exact iff_of_true rfl rfl
    | ptr freq node d => exact iff_of_false nofun nofun
  rw [children, Finset.sum_eq_zero_iff]
  simp only [Finset.mem_univ, true_implies, hpresent]

theorem present_of_ne_null (ht : t ≠ .null) : t.present = 1 := by
  cases t with
  | null => exact absurd rfl ht
  | ptr freq node child => rfl

theorem children_pos : 0 < children child ↔ ∃ i, child i ≠ .null := by
  rw [Nat.pos_iff_ne_zero, ne_eq, children_eq_zero, not_forall]

theorem one_lt_children : 1 < children child ↔ ∃ i j, i ≠ j ∧ child i ≠ .null ∧ child j ≠ .null := by
  have hwithout (i : Fin Size) (hi : child i ≠ .null) :
      children (Function.update child i .null) + 1 = children child := by
    have hcount := children_update child i .null
    rw [present_of_ne_null hi] at hcount
    exact hcount
  constructor
  · intro h
    obtain ⟨i, hi⟩ := children_pos.mp (Nat.zero_lt_of_lt h)
    have hrest : 0 < children (Function.update child i .null) := by
      have hcount := hwithout i hi
      omega
    obtain ⟨j, hj⟩ := children_pos.mp hrest
    have hne : j ≠ i := by
      intro he
      rw [he, Function.update_self] at hj
      exact hj rfl
    rw [Function.update_of_ne hne] at hj
    exact ⟨i, j, hne.symm, hi, hj⟩
  · intro h
    obtain ⟨i, j, hne, hi, hj⟩ := h
    have hrest : 0 < children (Function.update child i .null) := by
      apply children_pos.mpr
      refine ⟨j, ?_⟩
      rw [Function.update_of_ne hne.symm]
      exact hj
    have hcount := hwithout i hi
    omega

theorem root_new_node : (new_node : link_type Size).Root := by
  refine ⟨Int.le_refl 0, ?_, fun _ => trivial⟩
  rw [children_eq_zero.mpr fun _ => rfl]
  rfl

theorem wellFormed_update {c : Fin Size} {next : link_type Size} (hchild : ∀ i, (child i).WellFormed)
    (hnext : next.WellFormed) (i : Fin Size) : (Function.update child c next i).WellFormed := by
  by_cases hi : i = c
  · rw [hi, Function.update_self]
    exact hnext
  · rw [Function.update_of_ne hi]
    exact hchild i

theorem getfreq_null (word : List (Fin Size)) : getfreq word .null = 0 := by
  cases word with
  | nil => rfl
  | cons c word => rfl

theorem getfreq_new_node (word : List (Fin Size)) : getfreq word new_node = 0 := by
  cases word with
  | nil => rfl
  | cons c word => exact getfreq_null word

theorem getfreq_update (freq node : Int) {freq' node' : Int} {c c' : Fin Size} {next : link_type Size}
    {word : List (Fin Size)} :
    getfreq (c' :: word) (.ptr freq' node' (Function.update child c next)) =
      if c' = c then getfreq word next else getfreq (c' :: word) (.ptr freq node child) := by
  split
  · next hc =>
    rw [hc, getfreq, Function.update_self]
  · next hc => rw [getfreq, getfreq, Function.update_of_ne hc]

/-- Below a letter `insert` goes on at the child, or at a new node where there is none. -/
theorem insert_cons {c : Fin Size} {word : List (Fin Size)} (h : insert (c :: word) (.ptr freq node child) = some t') :
    ∃ old next, insert word old = some next ∧
      t' = .ptr freq (node + 1 - (child c).present) (Function.update child c next) ∧
      ((child c).WellFormed → old.Root) ∧ ∀ w, getfreq w old = getfreq w (child c) := by
  rw [insert] at h
  split at h
  · next hnull =>
    obtain ⟨next, hnext, rfl⟩ := Option.map_eq_some_iff.mp h
    refine ⟨new_node, next, hnext, ?_, fun _ => root_new_node, fun w => ?_⟩
    · rw [hnull]
      exact congrArg (fun n => ptr freq n _) (Int.sub_zero _).symm
    · rw [hnull, getfreq_null, getfreq_new_node]
  · next f n d hptr =>
    obtain ⟨next, hnext, rfl⟩ := Option.map_eq_some_iff.mp h
    refine ⟨.ptr f n d, next, hnext, ?_, fun hwf => ?_, fun w => ?_⟩
    · rw [hptr]
      exact congrArg (fun n => ptr freq n _) (Int.add_sub_cancel node 1).symm
    · rw [hptr] at hwf
      exact hwf.root
    · rw [hptr]

theorem insert_isPtr {word : List (Fin Size)} (h : insert word t = some t') : t'.present = 1 := by
  cases t with
  | null =>
    cases word with
    | nil => cases h
    | cons c word => cases h
  | ptr freq node child =>
    cases word with
    | nil =>
      obtain ⟨freq', -, rfl⟩ := Option.map_eq_some_iff.mp h
      rfl
    | cons c word =>
      obtain ⟨old, next, -, rfl, -⟩ := insert_cons h
      rfl

/-- A word is at the end of the branch, so that the branch is not dead. -/
theorem wellFormed_insert {word : List (Fin Size)} (ht : t.Root) (h : insert word t = some t') : t'.WellFormed := by
  induction word generalizing t t' with
  | nil =>
    cases t with
    | null => cases ht
    | ptr freq node child =>
      obtain ⟨hfreq, hnode, hchild⟩ := ht
      obtain ⟨freq', hfreq', rfl⟩ := Option.map_eq_some_iff.mp h
      unfold increment at hfreq'
      split at hfreq'
      · obtain rfl := Option.some.inj hfreq'
        exact ⟨by omega, hnode, fun _ => by omega, hchild⟩
      · cases hfreq'
  | cons c word ih =>
    cases t with
    | null => cases ht
    | ptr freq node child =>
      obtain ⟨hfreq, hnode, hchild⟩ := ht
      obtain ⟨old, next, hnext, rfl, hold, -⟩ := insert_cons h
      have hwf := ih (hold (hchild c)) hnext
      have hcount := children_update child c next
      rw [insert_isPtr hnext] at hcount
      have hle : (child c).present ≤ 1 := by
        cases child c with
        | null => exact Nat.zero_le 1
        | ptr f n d => exact Nat.le_refl 1
      have hpos : 0 < children (Function.update child c next) := by
        rw [Nat.pos_iff_ne_zero]
        intro hzero
        have hnull := children_eq_zero.mp hzero c
        rw [Function.update_self] at hnull
        have hptr := insert_isPtr hnext
        rw [hnull] at hptr
        cases hptr
      refine ⟨hfreq, by omega, fun hleaf => by omega, wellFormed_update hchild hwf⟩

theorem root_insert {word : List (Fin Size)} (ht : t.Root) (h : insert word t = some t') : t'.Root := by
  have hwf := wellFormed_insert ht h
  have hptr := insert_isPtr h
  cases t' with
  | null => cases hptr
  | ptr freq node child => exact hwf.root

/-- One more of the word. -/
theorem getfreq_insert {word : List (Fin Size)} (h : insert word t = some t') (w : List (Fin Size)) :
    getfreq w t' = getfreq w t + if w = word then 1 else 0 := by
  induction word generalizing t t' w with
  | nil =>
    cases t with
    | null => cases h
    | ptr freq node child =>
      obtain ⟨freq', hfreq', rfl⟩ := Option.map_eq_some_iff.mp h
      unfold increment at hfreq'
      split at hfreq'
      · obtain rfl := Option.some.inj hfreq'
        cases w with
        | nil => rfl
        | cons c w =>
          rw [if_neg (List.cons_ne_nil c w), Int.add_zero]
          rfl
      · cases hfreq'
  | cons c word ih =>
    cases t with
    | null => cases h
    | ptr freq node child =>
      obtain ⟨old, next, hnext, rfl, -, hold⟩ := insert_cons h
      cases w with
      | nil =>
        rw [if_neg (List.cons_ne_nil c word).symm, Int.add_zero]
        rfl
      | cons c' w =>
        rw [getfreq_update freq node]
        by_cases hc : c' = c
        · rw [if_pos hc, ih hnext w, hold w, hc, getfreq]
          simp only [List.cons.injEq, true_and]
        · have hne : ¬c' :: w = c :: word := fun he => hc (List.cons.inj he).1
          rw [if_neg hc, if_neg hne, Int.add_zero]

theorem insert_eq_none_iff {word : List (Fin Size)} (ht : t.Root) :
    insert word t = none ↔ 2147483647 ≤ getfreq word t := by
  induction word generalizing t with
  | nil =>
    cases t with
    | null => cases ht
    | ptr freq node child =>
      rw [insert, Option.map_eq_none_iff, increment, getfreq]
      split
      · next hlt => exact iff_of_false nofun (Int.not_le.mpr hlt)
      · next hge => exact iff_of_true rfl (Int.not_lt.mp hge)
  | cons c word ih =>
    cases t with
    | null => cases ht
    | ptr freq node child =>
      obtain ⟨-, -, hchild⟩ := ht
      have hwf := hchild c
      rw [insert, getfreq]
      split
      · next hnull => rw [Option.map_eq_none_iff, ih root_new_node, hnull, getfreq_null, getfreq_new_node]
      · next f n d hptr =>
        rw [hptr] at hwf
        rw [Option.map_eq_none_iff, ih hwf.root, hptr]

/-- A node without a word and without children. -/
def Dead (t : link_type Size) : Prop := ∀ w, getfreq w t = 0

theorem dead_leaf (hcount : (0 : Int) = children child) : (ptr 0 node child).Dead := by
  intro w
  cases w with
  | nil => rfl
  | cons c w =>
    have hzero : children child = 0 := by omega
    rw [getfreq, children_eq_zero.mp hzero c, getfreq_null]

theorem present_erase_node (word : List (Fin Size)) (t : link_type Size) :
    (erase_node word t).cur.present = t.present := by
  cases t with
  | null =>
    cases word with
    | nil => rfl
    | cons c word => rfl
  | ptr freq node child =>
    cases word with
    | nil => rfl
    | cons c word =>
      rw [erase_node]
      split
      · rfl
      · rfl

theorem erase_node_null (word : List (Fin Size)) :
    erase_node word (.null : link_type Size) = ⟨.null, false, false⟩ := by
  cases word with
  | nil => rfl
  | cons c word => rfl

/-- A node that the caller deletes is dead; any other keeps its branch alive. -/
theorem root_erase_node {word : List (Fin Size)} (ht : t.Root) :
    (erase_node word t).cur.Root ∧ ((erase_node word t).deletable = true → (erase_node word t).cur.Dead) ∧
      ((erase_node word t).deletable = false → t.WellFormed → (erase_node word t).cur.WellFormed) := by
  induction word generalizing t with
  | nil =>
    cases t with
    | null => cases ht
    | ptr freq node child =>
      obtain ⟨hfreq, hnode, hchild⟩ := ht
      rw [erase_node]
      generalize hleft : (if freq ≠ 0 then freq - 1 else freq) = left
      have hnonneg : 0 ≤ left := by
        rw [← hleft]
        split
        · omega
        · exact hfreq
      refine ⟨⟨hnonneg, hnode, hchild⟩, fun hdel => ?_, fun hdel _ => ⟨hnonneg, hnode, fun hleaf => ?_, hchild⟩⟩
      · obtain ⟨rfl, hleaf⟩ := of_decide_eq_true hdel
        exact dead_leaf (hleaf ▸ hnode)
      · have hword := of_decide_eq_false hdel
        omega
  | cons c word ih =>
    cases t with
    | null => cases ht
    | ptr freq node child =>
      obtain ⟨hfreq, hnode, hchild⟩ := ht
      have hbelow : (erase_node word (child c)).deletable = true → (child c).present = 1 := by
        intro hdel
        cases hc : child c with
        | null =>
          rw [hc, erase_node_null] at hdel
          cases hdel
        | ptr f n d => rfl
      have hnext : (erase_node word (child c)).deletable = false → (erase_node word (child c)).cur.WellFormed := by
        intro hdel
        have hwf := hchild c
        cases hc : child c with
        | null =>
          rw [erase_node_null]
          trivial
        | ptr f n d =>
          rw [hc] at hdel hwf
          exact (ih hwf.root).2.2 hdel hwf
      rw [erase_node]
      split
      · next hdel =>
        have hcount := children_update child c .null
        rw [hbelow hdel] at hcount
        have hnull : (null : link_type Size).present = 0 := rfl
        have hnode' : node - 1 = children (Function.update child c .null) := by omega
        have hwf : ∀ i, (Function.update child c .null i).WellFormed := wellFormed_update hchild trivial
        refine ⟨⟨hfreq, hnode', hwf⟩, fun hgone => ?_, fun hstays _ => ⟨hfreq, hnode', fun hleaf => ?_, hwf⟩⟩
        · obtain ⟨hleaf, rfl⟩ := of_decide_eq_true hgone
          exact dead_leaf (hleaf ▸ hnode')
        · have hword := of_decide_eq_false hstays
          omega
      · next hdel =>
        have hcount := children_update child c (erase_node word (child c)).cur
        rw [present_erase_node] at hcount
        have hnode' : node = children (Function.update child c (erase_node word (child c)).cur) := by omega
        have hwf := wellFormed_update (c := c) hchild (hnext (Bool.not_eq_true _ ▸ hdel))
        exact ⟨⟨hfreq, hnode', hwf⟩, nofun, fun _ ht => ⟨hfreq, hnode', ht.2.2.1, hwf⟩⟩

/-- One less of the word, if there was one. -/
theorem getfreq_erase_node {word : List (Fin Size)} (ht : t.Root) (w : List (Fin Size)) :
    getfreq w (erase_node word t).cur = getfreq w t - if w = word ∧ 0 < getfreq word t then 1 else 0 := by
  induction word generalizing t w with
  | nil =>
    cases t with
    | null => cases ht
    | ptr freq node child =>
      obtain ⟨hfreq, -, -⟩ := ht
      cases w with
      | nil =>
        rw [erase_node, getfreq, getfreq]
        simp only [true_and]
        split
        · rw [if_pos (by omega)]
        · rw [if_neg (by omega), Int.sub_zero]
      | cons c w =>
        rw [if_neg (fun h => List.cons_ne_nil c w h.1), Int.sub_zero]
        rfl
  | cons c word ih =>
    cases t with
    | null => cases ht
    | ptr freq node child =>
      obtain ⟨-, -, hchild⟩ := ht
      have hbelow : ∀ w, getfreq w (erase_node word (child c)).cur =
          getfreq w (child c) - if w = word ∧ 0 < getfreq word (child c) then 1 else 0 := by
        intro w
        have hwf := hchild c
        cases hc : child c with
        | null =>
          rw [erase_node_null, getfreq_null, getfreq_null, if_neg (fun h => Int.lt_irrefl 0 h.2), Int.sub_zero]
        | ptr f n d =>
          rw [hc] at hwf
          exact ih hwf.root w
      have hgone : (erase_node word (child c)).deletable = true → (erase_node word (child c)).cur.Dead := by
        intro hdel
        have hwf := hchild c
        cases hc : child c with
        | null =>
          rw [hc, erase_node_null] at hdel
          cases hdel
        | ptr f n d =>
          rw [hc] at hdel hwf
          exact (root_erase_node hwf.root).2.1 hdel
      -- the child is replaced by what has the same words
      have hreplaced : ∀ (node' : Int) (next : link_type Size),
          (∀ w, getfreq w next = getfreq w (erase_node word (child c)).cur) →
          getfreq w (.ptr freq node' (Function.update child c next)) = getfreq w (.ptr freq node child) -
            if w = c :: word ∧ 0 < getfreq (c :: word) (.ptr freq node child) then 1 else 0 := by
        intro node' next hnext
        cases w with
        | nil =>
          rw [if_neg (fun h => (List.cons_ne_nil c word) h.1.symm), Int.sub_zero]
          rfl
        | cons c' w =>
          rw [getfreq_update freq node]
          by_cases hc : c' = c
          · rw [if_pos hc, hnext w, hbelow w, hc, getfreq, getfreq]
            simp only [List.cons.injEq, true_and]
          · have hne : ¬(c' :: w = c :: word ∧ 0 < getfreq (c :: word) (.ptr freq node child)) :=
              fun he => hc (List.cons.inj he.1).1
            rw [if_neg hc, if_neg hne, Int.sub_zero]
      rw [erase_node]
      split
      · next hdel =>
        apply hreplaced
        intro w
        rw [getfreq_null, hgone hdel w]
      · exact hreplaced node _ fun _ => rfl

theorem result_erase_node {word : List (Fin Size)} (t : link_type Size) :
    (erase_node word t).result = decide (0 < getfreq word t) := by
  induction word generalizing t with
  | nil =>
    cases t with
    | null => rfl
    | ptr freq node child => rfl
  | cons c word ih =>
    cases t with
    | null => rfl
    | ptr freq node child =>
      rw [erase_node, getfreq, ← ih]
      split
      · rfl
      · rfl

/-- The number of nodes below a node. -/
def nodes : link_type Size → Nat
  | .null => 0
  | .ptr _ _ child => ∑ i, (child i).present * ((child i).nodes + 1)

/-- With the right counter the loop does not end before the last child. -/
theorem clear_loop_spec (below : Fin Size → Nat) {is : List (Fin Size)} (hnodup : is.Nodup) (s : Cleared Size)
    (hnode : s.node = ((is.map fun i => (s.child i).present).sum : Nat)) :
    (clear_loop below is s).node = 0 ∧
      (clear_loop below is s).deleted = s.deleted + (is.map fun i => (s.child i).present * (below i + 1)).sum := by
  induction is generalizing s with
  | nil => exact ⟨hnode, rfl⟩
  | cons i is ih =>
    obtain ⟨hnotin, hnodup⟩ := List.nodup_cons.mp hnodup
    rw [List.map_cons, List.sum_cons] at hnode ⊢
    cases hc : s.child i with
    | null =>
      have hnull : (null : link_type Size).present = 0 := rfl
      have hskip : clear_loop below (i :: is) s = clear_loop below is s := by rw [clear_loop, hc]
      rw [hc, hnull, Nat.zero_add] at hnode
      rw [hskip, hnull, Nat.zero_mul, Nat.zero_add]
      exact ih hnodup s hnode
    | ptr f n d =>
      have hptr : (ptr f n d).present = 1 := rfl
      rw [hc, hptr] at hnode
      rw [hptr, Nat.one_mul]
      have hsame : ∀ j ∈ is, Function.update s.child i .null j = s.child j := by
        intro j hj
        have hne : j ≠ i := fun he => hnotin (he ▸ hj)
        rw [Function.update_of_ne hne]
      by_cases hlast : s.node - 1 = 0
      · have hend : clear_loop below (i :: is) s =
            ⟨s.deleted + (below i + 1), s.node - 1, Function.update s.child i .null⟩ := by
          rw [clear_loop, hc]
          exact if_pos hlast
        have hzero : (is.map fun i => (s.child i).present).sum = 0 := by omega
        have hnone : ∀ j ∈ is, (s.child j).present = 0 := by
          intro j hj
          exact List.sum_eq_zero_iff_forall_eq_nat.mp hzero _ (List.mem_map.mpr ⟨j, hj, rfl⟩)
        have hrest : (is.map fun i => (s.child i).present * (below i + 1)).sum = 0 := by
          apply List.sum_eq_zero_iff_forall_eq_nat.mpr
          intro n hn
          obtain ⟨j, hj, rfl⟩ := List.mem_map.mp hn
          rw [hnone j hj, Nat.zero_mul]
        rw [hend, hrest]
        exact ⟨hlast, rfl⟩
      · have hgo : clear_loop below (i :: is) s =
            clear_loop below is ⟨s.deleted + (below i + 1), s.node - 1, Function.update s.child i .null⟩ := by
          rw [clear_loop, hc]
          exact if_neg hlast
        have hpresent : (is.map fun j => (Function.update s.child i .null j).present) =
            is.map fun j => (s.child j).present := by
          apply List.map_congr_left
          intro j hj
          rw [hsame j hj]
        have hweight : (is.map fun j => (Function.update s.child i .null j).present * (below j + 1)) =
            is.map fun j => (s.child j).present * (below j + 1) := by
          apply List.map_congr_left
          intro j hj
          rw [hsame j hj]
        have hnode' : s.node - 1 = ((is.map fun j => (Function.update s.child i .null j).present).sum : Nat) := by
          rw [hpresent]
          omega
        obtain ⟨hend, hdeleted⟩ :=
          ih hnodup ⟨s.deleted + (below i + 1), s.node - 1, Function.update s.child i .null⟩ hnode'
        rw [hgo, hend, hdeleted, hweight]
        exact ⟨rfl, Nat.add_assoc _ _ _⟩

/-- Every node is deleted, and the counter of the node that is cleared ends at zero. -/
theorem clear_node_spec (t : link_type Size) (ht : t.Root ∨ t.WellFormed) :
    (clear_node t).node = 0 ∧ (clear_node t).deleted = t.nodes := by
  induction t with
  | null => exact ⟨rfl, rfl⟩
  | ptr freq node child ih =>
    obtain ⟨-, hnode, hchild⟩ := root_of_either ht
    rw [children, Fin.sum_univ_def] at hnode
    obtain ⟨hend, hdeleted⟩ := clear_loop_spec (fun i => (clear_node (child i)).deleted) (List.nodup_finRange Size)
      ⟨0, node, child⟩ hnode
    refine ⟨hend, ?_⟩
    rw [clear_node, hdeleted, Nat.zero_add, nodes, Fin.sum_univ_def]
    congr 1
    apply List.map_congr_left
    intro i _
    rw [(ih i (.inr (hchild i))).2]

theorem root_clear (ht : t.Root) : t.clear.Root ∧ ∀ c word, getfreq (c :: word) t.clear = 0 := by
  cases t with
  | null => cases ht
  | ptr freq node child =>
    rw [clear, (clear_node_spec _ (.inl ht)).1]
    refine ⟨⟨ht.1, ?_, fun _ => trivial⟩, fun c word => getfreq_null word⟩
    rw [children_eq_zero.mpr fun _ => rfl]
    rfl

end link_type

end Perception.DataStruct
