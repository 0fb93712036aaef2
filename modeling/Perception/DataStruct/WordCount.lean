import Mathlib.Data.Multiset.Count
import Perception.DataStruct.Trie
import Perception.Lib.History

/-!
# The trie as a multiset of words

Calls with words of letters, upper and lower case alike, and the same calls on the multiset of the
words that are stored.
-/
namespace Perception.DataStruct

set_option autoImplicit false

open Perception.Lib.History link_type

/-- A `char` that is a letter. For any other `IndexClass` has no result. -/
structure Letter where
  key : UInt8
  isLetter : 97 ≤ key.toNat ∧ key.toNat ≤ 122 ∨ 65 ≤ key.toNat ∧ key.toNat ≤ 90

def IndexClass (c : Letter) : Fin 26 :=
  if h : 97 ≤ c.key.toNat ∧ c.key.toNat ≤ 122 then ⟨c.key.toNat - 97, by omega⟩
  else ⟨c.key.toNat - 65, by have := c.isLetter; omega⟩

structure Word where
  letters : List Letter
  ne_nil : letters ≠ []

namespace Word

def index (w : Word) : List (Fin 26) := w.letters.map IndexClass

theorem index_eq_cons (w : Word) : ∃ c word, w.index = c :: word := by
  obtain ⟨letters, hne⟩ := w
  cases letters with
  | nil => exact absurd rfl hne
  | cons c letters => exact ⟨IndexClass c, letters.map IndexClass, rfl⟩

end Word

inductive TrieOp
  | insert (w : Word)
  | erase (w : Word)
  | clear

/-- A call on the trie with its result, if it has one. -/
def exec (t : link_type 26) : TrieOp → Option (link_type 26 × Option Bool)
  | .insert w => (t.insert w.index).map (·, none)
  | .erase w => some ((t.erase_node w.index).cur, some (t.erase_node w.index).result)
  | .clear => some (t.clear, none)

/-- The call on the multiset. -/
def execWords (words : Multiset (List (Fin 26))) : TrieOp → Multiset (List (Fin 26)) × Option Bool
  | .insert w => (w.index ::ₘ words, none)
  | .erase w => (words.erase w.index, some (decide (w.index ∈ words)))
  | .clear => (0, none)

def wordStep (words : Multiset (List (Fin 26))) (op : TrieOp) : Option (Multiset (List (Fin 26))) :=
  some (execWords words op).1

/-- The trie has no dead branch and no wrong counter, and the frequencies are the multiplicities. -/
def Represents (t : link_type 26) (words : Multiset (List (Fin 26))) : Prop :=
  t.Root ∧ ∀ w : Word, t.getfreq w.index = words.count w.index

/-- Every call is made, has the result of the call on the multiset, and leaves a trie of it. -/
def Simulates : link_type 26 → Multiset (List (Fin 26)) → List TrieOp → Prop
  | _, _, [] => True
  | t, words, op :: ops => ∃ t' r, exec t op = some (t', r) ∧ r = (execWords words op).2 ∧
    Represents t' (execWords words op).1 ∧ Simulates t' (execWords words op).1 ops

/-- A frequency is an `int`. -/
def Limited (words : Multiset (List (Fin 26))) : Prop := ∀ word, words.count word ≤ 2147483647

/-- `Represents` for what the letters are mapped to. -/
structure Counts (t : link_type 26) (words : Multiset (List (Fin 26))) : Prop where
  root : t.Root
  getfreq : ∀ c word, t.getfreq (c :: word) = words.count (c :: word)

variable {t t' : link_type 26} {words : Multiset (List (Fin 26))}

theorem Counts.getfreq_index (h : Counts t words) (w : Word) : t.getfreq w.index = words.count w.index := by
  obtain ⟨c, word, hw⟩ := w.index_eq_cons
  rw [hw]
  exact h.getfreq c word

theorem Counts.represents (h : Counts t words) : Represents t words := ⟨h.root, h.getfreq_index⟩

theorem counts_new_node : Counts new_node 0 := by
  refine ⟨root_new_node, fun c word => ?_⟩
  rw [getfreq_new_node, Multiset.count_zero]
  rfl

/-- What a call does to the trie it does to the multiset. -/
theorem counts_exec {op : TrieOp} {r : Option Bool} (h : Counts t words) (hexec : exec t op = some (t', r)) :
    r = (execWords words op).2 ∧ Counts t' (execWords words op).1 := by
  cases op with
  | insert w =>
    obtain ⟨t'', hinsert, hpair⟩ := Option.map_eq_some_iff.mp hexec
    cases hpair
    refine ⟨rfl, root_insert h.root hinsert, fun c word => ?_⟩
    rw [getfreq_insert hinsert, h.getfreq, execWords, Multiset.count_cons]
    split
    · rfl
    · rfl
  | erase w =>
    cases hexec
    have hmem : 0 < t.getfreq w.index ↔ w.index ∈ words := by
      rw [h.getfreq_index, ← Multiset.count_pos]
      exact Int.natCast_pos
    refine ⟨?_, (root_erase_node h.root).1, fun c word => ?_⟩
    · rw [result_erase_node]
      exact congrArg some (decide_eq_decide.mpr hmem)
    · rw [getfreq_erase_node h.root, h.getfreq, execWords]
      simp only [hmem]
      by_cases hw : c :: word = w.index
      · rw [hw, Multiset.count_erase_self]
        by_cases hin : w.index ∈ words
        · have hpos := Multiset.count_pos.mpr hin
          rw [if_pos ⟨rfl, hin⟩]
          omega
        · rw [if_neg (fun he => hin he.2), Multiset.count_eq_zero_of_notMem hin]
          rfl
      · rw [Multiset.count_erase_of_ne hw, if_neg (fun he => hw he.1), Int.sub_zero]
  | clear =>
    cases hexec
    obtain ⟨hroot, hzero⟩ := root_clear h.root
    refine ⟨rfl, hroot, fun c word => ?_⟩
    rw [hzero, execWords, Multiset.count_zero]
    rfl

/-- Only one more insertion of a word with the largest `int` as its frequency cannot be made. -/
theorem exec_eq_none_iff {op : TrieOp} (h : Counts t words) (hlimited : Limited words) :
    exec t op = none ↔ ¬Limited (execWords words op).1 := by
  cases op with
  | insert w =>
    have hcount (word : List (Fin 26)) : (w.index ::ₘ words).count word =
        words.count word + if word = w.index then 1 else 0 := Multiset.count_cons ..
    rw [exec, Option.map_eq_none_iff, insert_eq_none_iff h.root, h.getfreq_index]
    constructor
    · intro hfull hnext
      have hword := hnext w.index
      rw [execWords, hcount, if_pos rfl] at hword
      omega
    · intro hnext
      by_contra hroom
      apply hnext
      intro word
      have hword := hlimited word
      rw [execWords, hcount]
      split
      · next heq =>
        rw [heq]
        omega
      · exact hword
  | erase w =>
    apply iff_of_false nofun
    rw [not_not]
    intro word
    exact Nat.le_trans (Multiset.count_le_of_le word (Multiset.erase_le _ _)) (hlimited word)
  | clear =>
    apply iff_of_false nofun
    rw [not_not]
    intro word
    rw [execWords, Multiset.count_zero]
    exact Nat.zero_le _

theorem simulates_iff (h : Counts t words) (hlimited : Limited words) (ops : List TrieOp) :
    Simulates t words ops ↔ Always wordStep Limited words ops := by
  induction ops generalizing t words with
  | nil => exact iff_of_true trivial (always_nil.mpr hlimited)
  | cons op ops ih =>
    rw [always_cons]
    constructor
    · intro hsim
      obtain ⟨t', r, hexec, -, -, hrest⟩ := hsim
      have hnext : Limited (execWords words op).1 := by
        by_contra hnot
        rw [(exec_eq_none_iff h hlimited).mpr hnot] at hexec
        cases hexec
      refine ⟨hlimited, fun words' hstep => ?_⟩
      cases hstep
      exact (ih (counts_exec h hexec).2 hnext).mp hrest
    · intro hall
      obtain ⟨-, hrest⟩ := hall
      have halways := hrest _ rfl
      have hnext : Limited (execWords words op).1 := halways [] ops _ rfl rfl
      cases hexec : exec t op with
      | none => exact absurd hnext ((exec_eq_none_iff h hlimited).mp hexec)
      | some result =>
        obtain ⟨t', r⟩ := result
        obtain ⟨hr, hcounts⟩ := counts_exec h hexec
        exact ⟨t', r, hexec, hr, hcounts.represents, (ih hcounts hnext).mpr halways⟩

/-- **Refinement.** A sequence of calls does what it does on the multiset of the words exactly when
no word is stored more often than an `int` can count. -/
theorem trie_simulates_iff (ops : List TrieOp) :
    Simulates new_node 0 ops ↔ Always wordStep Limited 0 ops := by
  apply simulates_iff counts_new_node
  intro word
  rw [Multiset.count_zero]
  exact Nat.zero_le _

/-- The word "a". -/
def wordA : Word := ⟨[⟨97, by decide⟩], List.cons_ne_nil _ _⟩

theorem run_replicate (w : Word) (n : Nat) (words : Multiset (List (Fin 26))) :
    run wordStep words (List.replicate n (.insert w)) = some (Multiset.replicate n w.index + words) := by
  induction n generalizing words with
  | zero => exact congrArg some (Multiset.zero_add words).symm
  | succ n ih =>
    rw [List.replicate_succ, run_cons_of_step rfl, ih, execWords, Multiset.replicate_succ, Multiset.cons_add,
      Multiset.add_cons]

/-- The word "a" once too often. -/
theorem not_simulates_repeated : ¬Simulates new_node 0 (List.replicate 2147483648 (.insert wordA)) := by
  rw [simulates_iff counts_new_node (fun word => Nat.zero_le _)]
  intro h
  have hlimited := h _ [] _ (List.append_nil _).symm (run_replicate wordA 2147483648 0) wordA.index
  rw [Multiset.count_add, Multiset.count_replicate_self] at hlimited
  omega

end Perception.DataStruct
