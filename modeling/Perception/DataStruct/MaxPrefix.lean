import Perception.DataStruct.WordCount

/-!
# The longest shared prefix

`maxPrefix_length` and `maxPrefix` against the prefixes that two different words share. A visit of
`maxPrefix` hands its scratch string on from one child to the next, so that a child may find there
what another one has left.
-/
namespace Perception.DataStruct

set_option autoImplicit false

namespace link_type

variable {Size : Nat}

/-- The condition at the end of both functions. -/
def Shares (length : Nat) (freq node : Int) : Prop := 0 < length ∨ 1 < node ∨ 0 < freq ∧ 0 < node

instance (length : Nat) (freq node : Int) : Decidable (Shares length freq node) := by unfold Shares; infer_instance

/-- The loop of `maxPrefix_length`; `below i` is what the call for the child `i` returns. -/
def lengthLoop (child : Fin Size → link_type Size) (below : Fin Size → Nat) : List (Fin Size) → Nat → Nat
  | [], length => length
  | i :: is, length =>
    match child i with
    | .null => lengthLoop child below is length
    | .ptr _ _ _ => lengthLoop child below is (if below i > length then below i else length)

def maxPrefix_length : link_type Size → Nat
  | .null => 0
  | .ptr freq node child =>
    let length := lengthLoop child (fun i => (child i).maxPrefix_length) (List.finRange Size) 0
    if Shares length freq node then length + 1 else length

/-- The variables of `maxPrefix`. The character `k + 'a'` of a string is `k` here. -/
structure Scan (Size : Nat) where
  pre : List (Fin Size)
  word : List (Fin Size)
  length : Nat
  k : Fin Size

/-- The loop of `maxPrefix`; `visit i` is the call for the child `i`. -/
def scan (child : Fin Size → link_type Size) (visit : Fin Size → List (Fin Size) → List (Fin Size)) :
    List (Fin Size) → Scan Size → Scan Size
  | [], s => s
  | i :: is, s =>
    match child i with
    | .null => scan child visit is s
    | .ptr _ _ _ =>
      let word := visit i s.word
      scan child visit is (if word.length > s.length then ⟨word, s.pre, word.length, i⟩ else { s with word })

def maxPrefix [NeZero Size] : link_type Size → List (Fin Size) → List (Fin Size)
  | .null, pre => pre
  | .ptr freq node child, pre =>
    let s := scan child (fun i => (child i).maxPrefix) (List.finRange Size) ⟨pre, [], 0, 0⟩
    if Shares s.length freq node then s.pre ++ [s.k] else s.pre

end link_type

namespace trie

open link_type

/-- The length that includes the root, less one. -/
def maxPrefix_length (root : link_type 26) : Int := root.maxPrefix_length - 1

/-- The string is reversed and its last character erased; `erase` throws for an empty string. -/
def maxPrefix (root : link_type 26) (pre : List (Fin 26)) : Option (List (Fin 26)) :=
  let pre := root.maxPrefix pre
  if pre.length = 0 then none else some pre.reverse.dropLast

end trie

namespace link_type

variable {Size : Nat}

/-- The string is a prefix of two different words. -/
def Shared (t : link_type Size) (p : List (Fin Size)) : Prop :=
  ∃ u v, u ≠ v ∧ p <+: u ∧ p <+: v ∧ 0 < t.getfreq u ∧ 0 < t.getfreq v

variable {t : link_type Size} {freq node : Int} {child : Fin Size → link_type Size}

theorem not_shared_null (p : List (Fin Size)) : ¬(null : link_type Size).Shared p := by
  intro h
  obtain ⟨u, v, -, -, -, hu, -⟩ := h
  rw [getfreq_null] at hu
  omega

theorem shared_nil_of_shared {p : List (Fin Size)} (h : t.Shared p) : t.Shared [] := by
  obtain ⟨u, v, hne, -, -, hu, hv⟩ := h
  exact ⟨u, v, hne, List.nil_prefix, List.nil_prefix, hu, hv⟩

/-- Behind its first letter a prefix is shared below the child. -/
theorem shared_cons {c : Fin Size} {p : List (Fin Size)} :
    (ptr freq node child).Shared (c :: p) ↔ (child c).Shared p := by
  constructor
  · intro h
    obtain ⟨u, v, hne, hpu, hpv, hu, hv⟩ := h
    obtain ⟨u', rfl⟩ := hpu
    obtain ⟨v', rfl⟩ := hpv
    refine ⟨p ++ u', p ++ v', ?_, List.prefix_append _ _, List.prefix_append _ _, hu, hv⟩
    intro he
    apply hne
    rw [List.cons_append, List.cons_append, he]
  · intro h
    obtain ⟨u, v, hne, hpu, hpv, hu, hv⟩ := h
    refine ⟨c :: u, c :: v, ?_, List.cons_prefix_cons.mpr ⟨rfl, hpu⟩, List.cons_prefix_cons.mpr ⟨rfl, hpv⟩, hu, hv⟩
    intro he
    exact hne (List.cons.inj he).2

/-- Below every node there is a word. -/
theorem exists_word (hwf : t.WellFormed) (ht : t ≠ .null) : ∃ w, 0 < t.getfreq w := by
  induction t with
  | null => exact absurd rfl ht
  | ptr freq node child ih =>
    obtain ⟨hfreq, hnode, hleaf, hchild⟩ := hwf
    by_cases hzero : node = 0
    · exact ⟨[], hleaf hzero⟩
    · obtain ⟨i, hi⟩ : ∃ i, child i ≠ .null := by
        by_contra hnone
        push Not at hnone
        rw [children_eq_zero.mpr hnone] at hnode
        exact hzero hnode
      obtain ⟨w, hw⟩ := ih i (hchild i) hi
      exact ⟨i :: w, hw⟩

theorem ne_null_of_getfreq {w : List (Fin Size)} (h : 0 < t.getfreq w) : t ≠ .null := by
  intro he
  rw [he, getfreq_null] at h
  omega

/-- Two different words are below a node exactly when there are two below a child, or the node
branches, or it is a word itself and goes on. -/
theorem shared_nil (ht : (ptr freq node child).Root) :
    (ptr freq node child).Shared [] ↔ (∃ i, (child i).Shared []) ∨ 1 < node ∨ 0 < freq ∧ 0 < node := by
  obtain ⟨hfreq, hnode, hchild⟩ := ht
  have hbelow {c : Fin Size} {w : List (Fin Size)} (h : 0 < (ptr freq node child).getfreq (c :: w)) : 0 < node := by
    have hpos := children_pos.mpr ⟨c, ne_null_of_getfreq h⟩
    omega
  constructor
  · intro h
    obtain ⟨u, v, hne, -, -, hu, hv⟩ := h
    cases u with
    | nil =>
      cases v with
      | nil => exact absurd rfl hne
      | cons c v => exact .inr (.inr ⟨hu, hbelow hv⟩)
    | cons c u =>
      cases v with
      | nil => exact .inr (.inr ⟨hv, hbelow hu⟩)
      | cons d v =>
        by_cases hcd : c = d
        · subst hcd
          left
          refine ⟨c, u, v, ?_, List.nil_prefix, List.nil_prefix, hu, hv⟩
          intro he
          exact hne (congrArg (c :: ·) he)
        · have hbranch := one_lt_children.mpr ⟨c, d, hcd, ne_null_of_getfreq hu, ne_null_of_getfreq hv⟩
          right
          left
          omega
  · intro h
    rcases h with ⟨i, hi⟩ | hbranch | ⟨hword, hmore⟩
    · exact shared_nil_of_shared (shared_cons.mpr hi)
    · obtain ⟨i, j, hij, hi, hj⟩ := one_lt_children.mp (show 1 < children child by omega)
      obtain ⟨u, hu⟩ := exists_word (hchild i) hi
      obtain ⟨v, hv⟩ := exists_word (hchild j) hj
      exact ⟨i :: u, j :: v, fun he => hij (List.cons.inj he).1, List.nil_prefix, List.nil_prefix, hu, hv⟩
    · obtain ⟨i, hi⟩ := children_pos.mp (show 0 < children child by omega)
      obtain ⟨u, hu⟩ := exists_word (hchild i) hi
      exact ⟨[], i :: u, (List.cons_ne_nil i u).symm, List.nil_prefix, List.nil_prefix, hword, hu⟩

theorem lt_lengthLoop {below : Fin Size → Nat} {is : List (Fin Size)} {length n : Nat} :
    n < lengthLoop child below is length ↔ n < length ∨ ∃ i ∈ is, child i ≠ .null ∧ n < below i := by
  induction is generalizing length with
  | nil => simp only [lengthLoop, List.not_mem_nil, false_and, exists_false, or_false]
  | cons i is ih =>
    rw [List.exists_mem_cons_iff]
    unfold lengthLoop
    split
    · next hnull =>
      rw [ih]
      simp only [hnull, ne_eq, not_true_eq_false, false_and, false_or]
    · next f m d hptr =>
      have hne : child i ≠ .null := by
        rw [hptr]
        nofun
      rw [ih, ← or_assoc]
      apply or_congr _ Iff.rfl
      constructor
      · intro h
        split at h
        · exact .inr ⟨hne, h⟩
        · exact .inl h
      · intro h
        split
        · rcases h with h | ⟨-, h⟩
          · omega
          · exact h
        · rcases h with h | ⟨-, h⟩
          · exact h
          · omega

/-- The length counts a node more than the longest shared prefix has letters. -/
theorem lt_maxPrefix_length (ht : t.Root ∨ t.WellFormed) {n : Nat} :
    n < t.maxPrefix_length ↔ ∃ p, t.Shared p ∧ p.length = n := by
  induction t generalizing n with
  | null =>
    apply iff_of_false (Nat.not_lt_zero n)
    intro h
    obtain ⟨p, hp, -⟩ := h
    exact not_shared_null p hp
  | ptr freq node child ih =>
    have hroot := root_of_either ht
    have hchild (i : Fin Size) {n : Nat} : n < (child i).maxPrefix_length ↔ ∃ p, (child i).Shared p ∧ p.length = n :=
      ih i (.inr (hroot.2.2 i))
    rw [maxPrefix_length]
    generalize hlength : lengthLoop child (fun i => (child i).maxPrefix_length) (List.finRange Size) 0 = length
    have hloop {n : Nat} : n < length ↔ ∃ i p, (child i).Shared p ∧ p.length = n := by
      rw [← hlength, lt_lengthLoop]
      constructor
      · intro h
        obtain ⟨i, -, -, hi⟩ := h.resolve_left (Nat.not_lt_zero n)
        exact ⟨i, (hchild i).mp hi⟩
      · intro h
        obtain ⟨i, p, hp, hn⟩ := h
        have hne : child i ≠ .null := by
          obtain ⟨u, -, -, -, -, hu, -⟩ := hp
          exact ne_null_of_getfreq hu
        exact .inr ⟨i, List.mem_finRange i, hne, (hchild i).mpr ⟨p, hp, hn⟩⟩
    cases n with
    | zero =>
      have hnil : (∃ p, (ptr freq node child).Shared p ∧ p.length = 0) ↔ Shares length freq node := by
        have hbelow : (∃ i, (child i).Shared []) ↔ 0 < length := by
          rw [hloop]
          constructor
          · intro h
            obtain ⟨i, hi⟩ := h
            exact ⟨i, [], hi, rfl⟩
          · intro h
            obtain ⟨i, p, hp, -⟩ := h
            exact ⟨i, shared_nil_of_shared hp⟩
        rw [Shares, ← hbelow, ← shared_nil hroot]
        constructor
        · intro h
          obtain ⟨p, hp, -⟩ := h
          exact shared_nil_of_shared hp
        · intro h
          exact ⟨[], h, rfl⟩
      rw [hnil]
      split
      · next hshares => exact iff_of_true (Nat.succ_pos length) hshares
      · next hshares => exact iff_of_false (fun hpos => hshares (.inl hpos)) hshares
    | succ n =>
      have hcons : (∃ p, (ptr freq node child).Shared p ∧ p.length = n + 1) ↔ n < length := by
        rw [hloop]
        constructor
        · intro h
          obtain ⟨p, hp, hn⟩ := h
          cases p with
          | nil => cases hn
          | cons c q => exact ⟨c, q, shared_cons.mp hp, Nat.succ.inj hn⟩
        · intro h
          obtain ⟨c, q, hq, hn⟩ := h
          exact ⟨c :: q, shared_cons.mpr hq, congrArg Nat.succ hn⟩
      rw [hcons]
      split
      · exact Nat.succ_lt_succ_iff
      · next hshares =>
        have hzero : ¬0 < length := fun hpos => hshares (.inl hpos)
        exact iff_of_false (by omega) (by omega)

/-- The sizes of the strings of `Scan`, and whether the longest one so far was made from an empty
string. -/
structure LeftOver where
  pre : Nat
  word : Nat
  length : Nat
  clean : Bool

/-- The places of the children in order. A child is visited with what is left over from those before
it, and `visit i n` says how long the string is then and whether it is clean. -/
def leftLoop (child : Fin Size → link_type Size) (visit : Fin Size → Nat → Nat × Bool) :
    List (Fin Size) → LeftOver → LeftOver
  | [], s => s
  | i :: is, s =>
    match child i with
    | .null => leftLoop child visit is s
    | .ptr _ _ _ =>
      let (word, clean) := visit i s.word
      leftLoop child visit is (if word > s.length then ⟨word, s.pre, word, clean⟩ else { s with word })

/-- A node that is visited with `n` characters left over, from which only a longer string of a child
can free it. -/
def leftOver : link_type Size → Nat → Nat × Bool
  | .null, n => (n, false)
  | .ptr freq node child, n =>
    let s := leftLoop child (fun i => (child i).leftOver) (List.finRange Size) ⟨n, 0, 0, decide (n = 0)⟩
    if Shares s.length freq node then (s.pre + 1, s.clean) else (s.pre, false)

/-- The longest string is made from an empty one. -/
def Clean (t : link_type Size) : Prop := (t.leftOver 0).2 = true

instance (t : link_type Size) : Decidable t.Clean := by unfold Clean; infer_instance

/-- The loop does not lose the length of any string. -/
theorem le_length_leftLoop (child : Fin Size → link_type Size) (visit : Fin Size → Nat → Nat × Bool)
    (is : List (Fin Size)) (s : LeftOver) :
    s.length ≤ (leftLoop child visit is s).length ∧
      ∀ i ∈ is, child i ≠ .null → ∀ n, (∀ m, n ≤ (visit i m).1) → n ≤ (leftLoop child visit is s).length := by
  induction is generalizing s with
  | nil => exact ⟨Nat.le_refl _, nofun⟩
  | cons i is ih =>
    unfold leftLoop
    split
    · next hnull =>
      obtain ⟨hstart, hrest⟩ := ih s
      refine ⟨hstart, fun j hj hne => ?_⟩
      rcases List.mem_cons.mp hj with rfl | hj
      · exact absurd hnull hne
      · exact hrest j hj hne
    · next f n d hptr =>
      dsimp only
      generalize hnext : (if (visit i s.word).1 > s.length then
        (⟨(visit i s.word).1, s.pre, (visit i s.word).1, (visit i s.word).2⟩ : LeftOver)
        else { s with word := (visit i s.word).1 }) = s'
      have hlength : s.length ≤ s'.length ∧ (visit i s.word).1 ≤ s'.length := by
        rw [← hnext]
        split
        · next hgt => exact ⟨Nat.le_of_lt hgt, Nat.le_refl _⟩
        · next hle => exact ⟨Nat.le_refl _, Nat.not_lt.mp hle⟩
      obtain ⟨hstart, hrest⟩ := ih s'
      refine ⟨Nat.le_trans hlength.1 hstart, fun j hj hne m hm => ?_⟩
      rcases List.mem_cons.mp hj with rfl | hj
      · exact Nat.le_trans (hm s.word) (Nat.le_trans hlength.2 hstart)
      · exact hrest j hj hne m hm

/-- A string that was swapped in is as long as `length` says. -/
theorem pre_leftLoop (child : Fin Size → link_type Size) (visit : Fin Size → Nat → Nat × Bool)
    (is : List (Fin Size)) (s : LeftOver) (hs : 0 < s.length → s.pre = s.length) :
    0 < (leftLoop child visit is s).length → (leftLoop child visit is s).pre = (leftLoop child visit is s).length := by
  induction is generalizing s with
  | nil => exact hs
  | cons i is ih =>
    unfold leftLoop
    split
    · exact ih s hs
    · apply ih
      split
      · exact fun _ => rfl
      · exact hs

/-- What is left over makes no string shorter. -/
theorem maxPrefix_length_le_leftOver (t : link_type Size) (n : Nat) : t.maxPrefix_length ≤ (t.leftOver n).1 := by
  induction t generalizing n with
  | null => exact Nat.zero_le n
  | ptr freq node child ih =>
    rw [maxPrefix_length, leftOver]
    generalize hlength : lengthLoop child (fun i => (child i).maxPrefix_length) (List.finRange Size) 0 = length
    have hloop := le_length_leftLoop child (fun i => (child i).leftOver) (List.finRange Size) ⟨n, 0, 0, decide (n = 0)⟩
    have hpre := pre_leftLoop child (fun i => (child i).leftOver) (List.finRange Size) ⟨n, 0, 0, decide (n = 0)⟩
      fun h => absurd h (Nat.lt_irrefl 0)
    generalize leftLoop child (fun i => (child i).leftOver) (List.finRange Size) ⟨n, 0, 0, decide (n = 0)⟩ = s
      at hloop hpre
    have hle : length ≤ s.length := by
      by_contra hgt
      rw [Nat.not_le, ← hlength, lt_lengthLoop] at hgt
      obtain ⟨i, hi, hne, hlt⟩ := hgt.resolve_left (Nat.not_lt_zero _)
      exact absurd (hloop.2 i hi hne _ (ih i)) (Nat.not_le.mpr hlt)
    by_cases hshares : Shares length freq node
    · have hshares' : Shares s.length freq node := hshares.imp_left fun hpos => Nat.lt_of_lt_of_le hpos hle
      rw [if_pos hshares, if_pos hshares']
      change length + 1 ≤ s.pre + 1
      by_cases hpos : 0 < s.length
      · rw [hpre hpos]
        exact Nat.succ_le_succ hle
      · omega
    · have hzero : ¬0 < length := fun hpos => hshares (.inl hpos)
      rw [if_neg hshares]
      omega

/-- A child below which a prefix is shared leaves a string, whatever it begins with. -/
theorem length_leftLoop_pos (hchild : ∀ i, (child i).WellFormed) {i : Fin Size} (hi : (child i).Shared [])
    (s : LeftOver) :
    0 < (leftLoop child (fun i => (child i).leftOver) (List.finRange Size) s).length := by
  have hlength : 0 < (child i).maxPrefix_length := (lt_maxPrefix_length (.inr (hchild i))).mpr ⟨[], hi, rfl⟩
  obtain ⟨u, -, -, -, -, hu, -⟩ := hi
  have hloop := (le_length_leftLoop child (fun i => (child i).leftOver) (List.finRange Size) s).2
  apply hloop i (List.mem_finRange i) (ne_null_of_getfreq hu) 1
  intro m
  exact Nat.le_trans hlength (maxPrefix_length_le_leftOver (child i) m)

theorem shares_leftLoop (ht : (ptr freq node child).Root) (h : (ptr freq node child).Shared []) (s : LeftOver) :
    Shares (leftLoop child (fun i => (child i).leftOver) (List.finRange Size) s).length freq node := by
  rcases (shared_nil ht).mp h with ⟨i, hi⟩ | hnode
  · exact .inl (length_leftLoop_pos ht.2.2 hi s)
  · exact .inr hnode

/-- Below no node there are three children with two different words each. -/
def AtMostTwo : link_type Size → Prop
  | .null => True
  | .ptr _ _ child =>
    (∀ i j k, i ≠ j → i ≠ k → j ≠ k → (child i).Shared [] → (child j).Shared [] → ¬(child k).Shared []) ∧
      ∀ i, (child i).AtMostTwo

/-- Children that hand on what is left over change nothing while it is not the longest. -/
theorem leftLoop_step_dead {visit : Fin Size → Nat → Nat × Bool} {i : Fin Size} {is : List (Fin Size)} {s : LeftOver}
    (hdead : ∀ n, visit i n = (n, false)) (hs : s.word ≤ s.length) :
    leftLoop child visit (i :: is) s = leftLoop child visit is s := by
  rw [leftLoop]
  split
  · rfl
  · rw [hdead]
    dsimp only
    rw [if_neg (Nat.not_lt.mpr hs)]

theorem leftOver_of_dead (ht : t.Root ∨ t.WellFormed) (hdead : ¬t.Shared []) (n : Nat) : t.leftOver n = (n, false) := by
  induction t generalizing n with
  | null => rfl
  | ptr freq node child ih =>
    have hroot := root_of_either ht
    rw [shared_nil hroot, not_or] at hdead
    obtain ⟨hbelow, hnode⟩ := hdead
    have hloop (is : List (Fin Size)) (s : LeftOver) (hs : s.word ≤ s.length) :
        leftLoop child (fun i => (child i).leftOver) is s = s := by
      induction is with
      | nil => rfl
      | cons i is ihis =>
        rw [leftLoop_step_dead (ih i (.inr (hroot.2.2 i)) fun hi => hbelow ⟨i, hi⟩) hs]
        exact ihis
    rw [leftOver, hloop _ _ (Nat.le_refl 0)]
    exact if_neg fun hshares => hnode (hshares.resolve_left (Nat.lt_irrefl 0))

/-- After the children `seen` that leave a string: with less than two of them nothing is left over. -/
structure Unspoilt (seen : List (Fin Size)) (s : LeftOver) : Prop where
  clean : s.clean = true
  pre : s.pre = s.length
  word : s.word ≤ s.length
  none_seen : seen.length = 0 → s.length = 0
  one_seen : seen.length ≤ 1 → s.word = 0

theorem clean_leftLoop {visit : Fin Size → Nat → Nat × Bool} {live : Fin Size → Prop}
    (hlive : ∀ i, live i → (visit i 0).2 = true) (hdead : ∀ i, ¬live i → ∀ n, visit i n = (n, false))
    (hfew : ∀ i j k, i ≠ j → i ≠ k → j ≠ k → live i → live j → ¬live k) (seen is : List (Fin Size)) {s : LeftOver}
    (hnodup : (seen ++ is).Nodup) (hseen : ∀ i ∈ seen, live i) (hs : Unspoilt seen s) :
    (leftLoop child visit is s).clean = true := by
  induction is generalizing seen s with
  | nil => exact hs.clean
  | cons i is ih =>
    have hrest : (seen ++ is).Nodup := hnodup.sublist ((List.sublist_cons_self i is).append_left seen)
    by_cases hi : live i
    · have hone : seen.length ≤ 1 := by
        by_contra hmore
        cases seen with
        | nil => exact hmore (Nat.zero_le 1)
        | cons a seen =>
          cases seen with
          | nil => exact hmore (Nat.le_refl 1)
          | cons b seen =>
            obtain ⟨ha, hnodup⟩ := List.nodup_cons.mp hnodup
            obtain ⟨hb, -⟩ := List.nodup_cons.mp hnodup
            have hib : i ∈ seen ++ i :: is := List.mem_append_right seen List.mem_cons_self
            have hia : i ∈ b :: (seen ++ i :: is) := List.mem_cons_of_mem b hib
            have hab : a ≠ b := fun he => ha (he ▸ List.mem_cons_self)
            have hai : a ≠ i := fun he => ha (he ▸ hia)
            have hbi : b ≠ i := fun he => hb (he ▸ hib)
            have hlivea := hseen a List.mem_cons_self
            have hliveb := hseen b (List.mem_cons_of_mem a List.mem_cons_self)
            exact hfew a b i hab hai hbi hlivea hliveb hi
      have hnodup' : ((seen ++ [i]) ++ is).Nodup := by
        rw [List.append_assoc]
        exact hnodup
      have hseen' : ∀ j ∈ seen ++ [i], live j := by
        intro j hj
        rcases List.mem_append.mp hj with hj | hj
        · exact hseen j hj
        · obtain rfl := List.mem_singleton.mp hj
          exact hi
      have hlength : (seen ++ [i]).length = seen.length + 1 := List.length_append
      rw [leftLoop]
      split
      · exact ih seen hrest hseen hs
      · rw [hs.one_seen hone]
        have hvisit := hlive i hi
        generalize visit i 0 = visited at hvisit
        obtain ⟨v, clean⟩ := visited
        apply ih (seen ++ [i]) hnodup' hseen'
        have hpre := hs.pre
        have hzero := hs.none_seen
        split
        · next hlonger =>
          have hword : s.pre ≤ v := by omega
          have hfirst : (seen ++ [i]).length ≤ 1 → s.pre = 0 := by omega
          exact ⟨hvisit, rfl, hword, fun h => by omega, hfirst⟩
        · next hshort =>
          have hword : v ≤ s.length := Nat.not_lt.mp hshort
          have hfirst : (seen ++ [i]).length ≤ 1 → v = 0 := by omega
          exact ⟨hs.clean, hpre, hword, fun h => by omega, hfirst⟩
    · rw [leftLoop_step_dead (hdead i hi) hs.word]
      exact ih seen hrest hseen hs

theorem clean_of_atMostTwo (ht : t.Root ∨ t.WellFormed) (hfew : t.AtMostTwo) (hlive : t.Shared []) :
    (t.leftOver 0).2 = true := by
  induction t with
  | null => exact absurd hlive (not_shared_null [])
  | ptr freq node child ih =>
    have hroot := root_of_either ht
    obtain ⟨hthree, hbelow⟩ := hfew
    have hchild (i : Fin Size) : (child i).Root ∨ (child i).WellFormed := .inr (hroot.2.2 i)
    have hstart : Unspoilt ([] : List (Fin Size)) ⟨0, 0, 0, true⟩ :=
      ⟨rfl, rfl, Nat.le_refl 0, fun _ => rfl, fun _ => rfl⟩
    have hclean : (leftLoop child (fun i => (child i).leftOver) (List.finRange Size) ⟨0, 0, 0, true⟩).clean = true := by
      apply clean_leftLoop _ _ hthree [] _ (List.nodup_finRange Size) nofun hstart
      · intro i hi
        exact ih i (hchild i) (hbelow i) hi
      · intro i hi
        exact leftOver_of_dead (hchild i) hi
    rw [leftOver]
    exact (congrArg Prod.snd (if_pos (shares_leftLoop hroot hlive _))).trans hclean

variable [NeZero Size]

/-- A string and its sizes: it is still the one at the begin, or that of the child `k`. -/
structure Agrees (child : Fin Size → link_type Size) (pre : List (Fin Size)) (s : Scan Size) (l : LeftOver) : Prop where
  pre_length : s.pre.length = l.pre
  word_length : s.word.length = l.word
  length : s.length = l.length
  clean : l.length = 0 ∧ s.pre = pre ∧ s.k = 0 ∧ (l.clean = true ↔ pre = []) ∨
    s.pre ≠ [] ∧ (l.clean = true ↔ (child s.k).Shared s.pre.reverse.dropLast)

theorem agrees_scan {visit : Fin Size → List (Fin Size) → List (Fin Size)} {sizes : Fin Size → Nat → Nat × Bool}
    (hvisit : ∀ i word, (visit i word).length = (sizes i word.length).1 ∧
      ((sizes i word.length).2 = true ↔ (child i).Shared (visit i word).reverse.dropLast))
    {pre : List (Fin Size)} {s : Scan Size} {l : LeftOver} (is : List (Fin Size)) (h : Agrees child pre s l) :
    Agrees child pre (scan child visit is s) (leftLoop child sizes is l) := by
  induction is generalizing s l with
  | nil => exact h
  | cons i is ih =>
    rw [scan, leftLoop]
    cases hc : child i with
    | null => exact ih h
    | ptr f n d =>
      obtain ⟨hlength, hclean⟩ := hvisit i s.word
      rw [h.word_length] at hlength hclean
      apply ih
      by_cases hswap : (visit i s.word).length > s.length
      · have hswap' : (sizes i l.word).1 > l.length := by
          rw [← hlength, ← h.length]
          exact hswap
        rw [if_pos hswap, if_pos hswap']
        refine ⟨hlength, h.pre_length, hlength, .inr ⟨?_, hclean⟩⟩
        exact List.ne_nil_of_length_pos (Nat.zero_lt_of_lt hswap)
      · have hswap' : ¬(sizes i l.word).1 > l.length := by
          rw [← hlength, ← h.length]
          exact hswap
        rw [if_neg hswap, if_neg hswap']
        exact ⟨h.pre_length, hlength, h.length, h.clean⟩

omit [NeZero Size] in
theorem reverse_dropLast_concat {pre : List (Fin Size)} (hne : pre ≠ []) (k : Fin Size) :
    (pre ++ [k]).reverse.dropLast = k :: pre.reverse.dropLast := by
  have hrev : pre.reverse ≠ [] := fun he => hne (List.reverse_eq_nil_iff.mp he)
  rw [List.reverse_append, List.reverse_singleton, List.singleton_append, List.dropLast_cons_of_ne_nil hrev]

/-- Behind the last character, which is never part of it, a visit that is clean leaves a shared
prefix, and no other visit does. -/
theorem maxPrefix_spec (t : link_type Size) (ht : t.Root ∨ t.WellFormed) (pre : List (Fin Size)) :
    (t.maxPrefix pre).length = (t.leftOver pre.length).1 ∧
      ((t.leftOver pre.length).2 = true ↔ t.Shared (t.maxPrefix pre).reverse.dropLast) := by
  induction t generalizing pre with
  | null => exact ⟨rfl, iff_of_false nofun (not_shared_null _)⟩
  | ptr freq node child ih =>
    have hroot := root_of_either ht
    have hstart : Agrees child pre ⟨pre, [], 0, 0⟩ ⟨pre.length, 0, 0, decide (pre.length = 0)⟩ := by
      refine ⟨rfl, rfl, rfl, .inl ⟨rfl, rfl, rfl, ?_⟩⟩
      rw [decide_eq_true_eq, List.length_eq_zero_iff]
    have hagrees := agrees_scan (fun i word => ih i (.inr (hroot.2.2 i)) word) (List.finRange Size) hstart
    have hpos {i : Fin Size} (hi : (child i).Shared []) := length_leftLoop_pos hroot.2.2 hi
      ⟨pre.length, 0, 0, decide (pre.length = 0)⟩
    have hnil (h : (ptr freq node child).Shared []) := shares_leftLoop hroot h
      ⟨pre.length, 0, 0, decide (pre.length = 0)⟩
    rw [maxPrefix, leftOver]
    generalize scan child (fun i => (child i).maxPrefix) (List.finRange Size) ⟨pre, [], 0, 0⟩ = s at hagrees
    generalize leftLoop child (fun i => (child i).leftOver) (List.finRange Size)
      ⟨pre.length, 0, 0, decide (pre.length = 0)⟩ = l at hagrees hpos hnil
    rw [hagrees.length]
    split
    · next hshares =>
      refine ⟨?_, ?_⟩
      · rw [List.length_append, List.length_singleton, hagrees.pre_length]
      · rcases hagrees.clean with ⟨hzero, hpre, hk, hclean⟩ | ⟨hne, hclean⟩
        · rw [hclean, hpre]
          constructor
          · intro hempty
            rw [hempty]
            apply (shared_nil hroot).mpr
            right
            exact hshares.resolve_left (by omega)
          · intro hshared
            by_contra hne
            rw [reverse_dropLast_concat hne, shared_cons] at hshared
            have hlength := hpos (shared_nil_of_shared hshared)
            omega
        · rw [hclean, reverse_dropLast_concat hne, shared_cons]
    · next hshares =>
      refine ⟨hagrees.pre_length, iff_of_false nofun fun hshared => ?_⟩
      exact hshares (hnil (shared_nil_of_shared hshared))

/-- The length of the longest string that is a prefix of two different words, or 0. -/
def Longest (t : link_type Size) (n : Nat) : Prop :=
  (∃ p, t.Shared p ∧ p.length = n) ∧ (∀ p, t.Shared p → p.length ≤ n) ∨ (¬∃ p, t.Shared p) ∧ n = 0

end link_type

open link_type

/-- A trie after calls with any words of letters. -/
inductive Built : link_type 26 → Prop
  | empty : Built new_node
  | insert {t t' : link_type 26} (word : List Letter) : Built t → t.insert (word.map IndexClass) = some t' → Built t'
  | erase {t : link_type 26} (word : List Letter) : Built t → Built (t.erase_node (word.map IndexClass)).cur
  | clear {t : link_type 26} : Built t → Built t.clear

theorem Built.root {t : link_type 26} (h : Built t) : t.Root := by
  induction h with
  | empty => exact root_new_node
  | insert word _ hinsert ih => exact root_insert ih hinsert
  | erase word _ ih => exact (root_erase_node ih).1
  | clear _ ih => exact (root_clear ih).1

/-- `maxPrefix_length` returns the length of the longest shared prefix, and `maxPrefix` comes back
with a shared prefix of this length. -/
def FindsPrefix (t : link_type 26) : Prop :=
  ∃ n, t.Longest n ∧ trie.maxPrefix_length t = n ∧
    ∃ p, trie.maxPrefix t [] = some p ∧ p.length = n ∧ ((∃ q, t.Shared q) → t.Shared p)

/-- Two different words are stored. -/
def TwoWords (t : link_type 26) : Prop := ∃ u v, u ≠ v ∧ 0 < t.getfreq u ∧ 0 < t.getfreq v

theorem twoWords_iff {t : link_type 26} : TwoWords t ↔ t.Shared [] := by
  constructor
  · intro h
    obtain ⟨u, v, hne, hu, hv⟩ := h
    exact ⟨u, v, hne, List.nil_prefix, List.nil_prefix, hu, hv⟩
  · intro h
    obtain ⟨u, v, hne, -, -, hu, hv⟩ := h
    exact ⟨u, v, hne, hu, hv⟩

theorem findsPrefix_iff_of_root {t : link_type 26} (hroot : t.Root) : FindsPrefix t ↔ TwoWords t ∧ t.Clean := by
  obtain ⟨hlength, hclean⟩ := maxPrefix_spec t (.inl hroot) []
  have hle := maxPrefix_length_le_leftOver t 0
  have hshared (n : Nat) := lt_maxPrefix_length (.inl hroot) (n := n)
  rw [twoWords_iff]
  unfold FindsPrefix Clean trie.maxPrefix_length trie.maxPrefix
  rw [List.length_nil] at hlength hclean
  constructor
  · intro hfinds
    obtain ⟨n, hlongest, hn, p, hp, hpn, hpshared⟩ := hfinds
    have hnil : t.Shared [] := by
      obtain ⟨q, hq, -⟩ := (hshared n).mp (by omega)
      exact shared_nil_of_shared hq
    dsimp only at hp
    split at hp
    · cases hp
    · obtain rfl := Option.some.inj hp
      exact ⟨hnil, hclean.mpr (hpshared ⟨[], hnil⟩)⟩
  · intro hcond
    obtain ⟨hnil, hclean'⟩ := hcond
    have hpos := (hshared 0).mpr ⟨[], hnil, rfl⟩
    have hfound := hclean.mp hclean'
    have hpn : (t.maxPrefix []).reverse.dropLast.length = t.maxPrefix_length - 1 := by
      have hlt := (hshared _).mpr ⟨_, hfound, rfl⟩
      rw [List.length_dropLast, List.length_reverse, hlength] at hlt ⊢
      omega
    have hne : ¬(t.maxPrefix []).length = 0 := by omega
    refine ⟨t.maxPrefix_length - 1, .inl ⟨⟨_, hfound, hpn⟩, ?_⟩, by omega, _, if_neg hne, hpn, fun _ => hfound⟩
    intro q hq
    have hlt := (hshared _).mpr ⟨q, hq, rfl⟩
    omega

/-- **The shared prefix.** It is found exactly when there is one and the longest string has been made
from an empty scratch string. -/
theorem findsPrefix_iff (t : link_type 26) (h : Built t) : FindsPrefix t ↔ TwoWords t ∧ t.Clean :=
  findsPrefix_iff_of_root h.root

/-- Two children at most below which a prefix is shared leave nothing over. -/
theorem findsPrefix_of_atMostTwo {t : link_type 26} (h : Built t) (hwords : TwoWords t) (hfew : t.AtMostTwo) :
    FindsPrefix t :=
  (findsPrefix_iff_of_root h.root).mpr ⟨hwords, clean_of_atMostTwo (.inl h.root) hfew (twoWords_iff.mp hwords)⟩

/-- The lower case letters with these places in the alphabet. -/
def lower (places : List (Fin 26)) : List Letter :=
  places.map fun i => ⟨(97 + i.val).toUInt8, .inl (by revert i; decide)⟩

def store (words : List (List Letter)) : Option (link_type 26) :=
  words.foldlM (fun t word => t.insert (word.map IndexClass)) new_node

theorem built_foldlM {words : List (List Letter)} {t t' : link_type 26} (ht : Built t)
    (h : words.foldlM (fun t word => t.insert (word.map IndexClass)) t = some t') : Built t' := by
  induction words generalizing t with
  | nil =>
    obtain rfl := Option.some.inj h
    exact ht
  | cons word words ih =>
    rw [List.foldlM_cons] at h
    obtain ⟨t₁, hinsert, hrest⟩ := Option.bind_eq_some_iff.mp h
    exact ih (ht.insert word hinsert) hrest

/-- "abc", "abd" and "b": the prefix "ab". -/
theorem findsPrefix_iff_forked : ∃ t, store [lower [0, 1, 2], lower [0, 1, 3], lower [1]] = some t ∧
    (FindsPrefix t ↔ TwoWords t ∧ t.Clean) ∧ trie.maxPrefix t [] = some [0, 1] := by
  have hsome : (store [lower [0, 1, 2], lower [0, 1, 3], lower [1]]).isSome = true := by decide +kernel
  have hprefix : (store [lower [0, 1, 2], lower [0, 1, 3], lower [1]]).bind (trie.maxPrefix · []) = some [0, 1] := by
    decide +kernel
  obtain ⟨t, ht⟩ := Option.isSome_iff_exists.mp hsome
  rw [ht] at hprefix
  exact ⟨t, ht, findsPrefix_iff t (built_foldlM .empty ht), hprefix⟩

/-- "ab" and "ac", "bb" and "bc", "cb" and "cc". -/
def threePairs : List (List Letter) := [0, 1, 2].flatMap fun c => [lower [c, 1], lower [c, 2]]

/-- For an empty trie the length is -1. For the three pairs the string is "ca", which no two words
share. -/
theorem not_findsPrefix_pairs : (¬FindsPrefix new_node) ∧
    ∃ t, store threePairs = some t ∧ trie.maxPrefix t [] = some [2, 0] ∧ TwoWords t ∧ ¬FindsPrefix t := by
  constructor
  · rw [findsPrefix_iff_of_root root_new_node]
    intro h
    obtain ⟨⟨u, v, -, hu, -⟩, -⟩ := h
    rw [getfreq_new_node] at hu
    omega
  · have hsome : (store threePairs).isSome = true := by decide +kernel
    have hprefix : (store threePairs).bind (trie.maxPrefix · []) = some [2, 0] := by decide +kernel
    have hwords : (store threePairs).map (fun t => (t.getfreq [0, 1], t.getfreq [0, 2])) = some (1, 1) := by
      decide +kernel
    have hclean : (store threePairs).map (fun t => decide t.Clean) = some false := by decide +kernel
    obtain ⟨t, ht⟩ := Option.isSome_iff_exists.mp hsome
    rw [ht] at hprefix hwords hclean
    obtain ⟨hb, hc⟩ := Prod.mk.inj (Option.some.inj hwords)
    have hne : ([0, 1] : List (Fin 26)) ≠ [0, 2] := by decide
    refine ⟨t, ht, hprefix, ⟨[0, 1], [0, 2], hne, by omega, by omega⟩, ?_⟩
    rw [findsPrefix_iff_of_root (built_foldlM .empty ht).root]
    intro h
    exact of_decide_eq_false (Option.some.inj hclean) h.2

end Perception.DataStruct
