import Mathlib.Data.List.Basic

/-!
# Formats

In a format two percent signs stand for one, and a percent sign with another character
behind it asks for an argument. `plain` is the text of a format that asks for none; the
last percent sign of a format has nothing behind it and stands for itself. `expand` puts
arguments in the place of the words of a format that ask for a text.
-/
namespace Perception.Lib

set_option autoImplicit false

def plain : List Char → Option (List Char)
  | [] => some []
  | [c] => some [c]
  | c :: c' :: cs =>
    if c = '%' then if c' = '%' then (plain cs).map (c :: ·) else none
    else (plain (c' :: cs)).map (c :: ·)

theorem plain_cons {c : Char} (h : c ≠ '%') (cs : List Char) : plain (c :: cs) = (plain cs).map (c :: ·) := by
  cases cs with
  | nil => rfl
  | cons c' cs => rw [plain, if_neg h]

theorem plain_pair (cs : List Char) : plain ('%' :: '%' :: cs) = (plain cs).map ('%' :: ·) := by
  rw [plain, if_pos rfl, if_pos rfl]

theorem plain_directive {c : Char} (h : c ≠ '%') (cs : List Char) : plain ('%' :: c :: cs) = none := by
  rw [plain, if_pos rfl, if_neg h]

theorem plain_append {xs : List Char} (h : '%' ∉ xs) (ys : List Char) : plain (xs ++ ys) = (plain ys).map (xs ++ ·) := by
  induction xs with
  | nil => exact Option.map_id'.symm
  | cons x xs ih =>
    rw [List.mem_cons, not_or] at h
    obtain ⟨hx, hxs⟩ := h
    rw [List.cons_append, plain_cons (Ne.symm hx), ih hxs, Option.map_map]
    rfl

/-- A format is no shorter than its text, and made of the same characters. -/
theorem plain_le {s t : List Char} (h : plain s = some t) : t.length ≤ s.length ∧ (s ≠ [] → t ≠ []) ∧ ∀ c ∈ t, c ∈ s := by
  induction s using plain.induct generalizing t with
  | case1 =>
    cases h
    exact ⟨Nat.le_refl _, id, fun _ => id⟩
  | case2 c =>
    cases h
    exact ⟨Nat.le_refl _, id, fun _ => id⟩
  | case3 cs ih =>
    rw [plain_pair] at h
    obtain ⟨t, ht, rfl⟩ := Option.map_eq_some_iff.mp h
    obtain ⟨hle, -, hmem⟩ := ih ht
    refine ⟨?_, fun _ => List.cons_ne_nil _ _, ?_⟩
    · rw [List.length_cons, List.length_cons, List.length_cons]
      omega
    · intro c hc
      rcases List.mem_cons.mp hc with rfl | hc
      · exact List.mem_cons_self
      · exact List.mem_cons_of_mem _ (List.mem_cons_of_mem _ (hmem c hc))
  | case4 c' cs hc' =>
    rw [plain_directive hc'] at h
    cases h
  | case5 c c' cs hc ih =>
    rw [plain_cons hc] at h
    obtain ⟨t, ht, rfl⟩ := Option.map_eq_some_iff.mp h
    obtain ⟨hle, -, hmem⟩ := ih ht
    refine ⟨?_, fun _ => List.cons_ne_nil _ _, ?_⟩
    · rw [List.length_cons, List.length_cons]
      omega
    · intro x hx
      rcases List.mem_cons.mp hx with rfl | hx
      · exact List.mem_cons_self
      · exact List.mem_cons_of_mem _ (hmem x hx)

/-- The only formats that are their own text. -/
theorem plain_eq_self_iff (s : List Char) : plain s = some s ↔ '%' ∉ s.dropLast := by
  induction s using plain.induct with
  | case1 => exact iff_of_true rfl List.not_mem_nil
  | case2 c => exact iff_of_true rfl List.not_mem_nil
  | case3 cs ih =>
    rw [plain_pair]
    constructor
    · intro h
      obtain ⟨t, ht, heq⟩ := Option.map_eq_some_iff.mp h
      have hle := (plain_le ht).1
      have hlen := congrArg List.length heq
      rw [List.length_cons, List.length_cons, List.length_cons] at hlen
      omega
    · intro h
      rw [List.dropLast_cons_cons] at h
      exact absurd List.mem_cons_self h
  | case4 c' cs hc' =>
    rw [plain_directive hc', List.dropLast_cons_cons]
    exact iff_of_false nofun fun h => h List.mem_cons_self
  | case5 c c' cs hc ih =>
    rw [plain_cons hc, List.dropLast_cons_cons, List.mem_cons, not_or, ← ih]
    constructor
    · intro h
      obtain ⟨t, ht, heq⟩ := Option.map_eq_some_iff.mp h
      cases heq
      exact ⟨Ne.symm hc, ht⟩
    · rintro ⟨-, h⟩
      rw [h]
      rfl

/-- A character that no directive is made of parts a format: in front of it every percent
sign has another. -/
theorem plain_append_cons {d : Char} (hd : d ≠ '%') {xs ys t : List Char} (h : plain (xs ++ d :: ys) = some t) :
    ∃ a b, t = a ++ d :: b ∧ plain ys = some b ∧ (∀ c ∈ a, c ∈ xs) ∧ (xs ≠ [] → a ≠ []) ∧
      a.length ≤ xs.length ∧ ('%' ∈ xs → a.length < xs.length) := by
  induction xs using plain.induct generalizing t with
  | case1 =>
    rw [List.nil_append, plain_cons hd] at h
    obtain ⟨b, hb, rfl⟩ := Option.map_eq_some_iff.mp h
    exact ⟨[], b, rfl, hb, nofun, id, Nat.le_refl _, nofun⟩
  | case2 c =>
    by_cases hc : c = '%'
    · rw [hc, List.singleton_append, plain_directive hd] at h
      cases h
    · rw [List.singleton_append, plain_cons hc, plain_cons hd, Option.map_map] at h
      obtain ⟨b, hb, rfl⟩ := Option.map_eq_some_iff.mp h
      refine ⟨[c], b, rfl, hb, fun _ => id, fun _ => List.cons_ne_nil _ _, Nat.le_refl _, fun hmem => ?_⟩
      exact absurd (List.mem_singleton.mp hmem).symm hc
  | case3 cs ih =>
    rw [List.cons_append, List.cons_append, plain_pair] at h
    obtain ⟨t, ht, rfl⟩ := Option.map_eq_some_iff.mp h
    obtain ⟨a, b, rfl, hb, hmem, -, hle, -⟩ := ih ht
    have hlt : ('%' :: a).length < ('%' :: '%' :: cs).length := by
      rw [List.length_cons, List.length_cons, List.length_cons]
      omega
    refine ⟨'%' :: a, b, rfl, hb, ?_, fun _ => List.cons_ne_nil _ _, Nat.le_of_lt hlt, fun _ => hlt⟩
    intro x hx
    rcases List.mem_cons.mp hx with rfl | hx
    · exact List.mem_cons_self
    · exact List.mem_cons_of_mem _ (List.mem_cons_of_mem _ (hmem x hx))
  | case4 c' cs hc' =>
    rw [List.cons_append, List.cons_append, plain_directive hc'] at h
    cases h
  | case5 c c' cs hc ih =>
    rw [List.cons_append, plain_cons hc] at h
    obtain ⟨t, ht, rfl⟩ := Option.map_eq_some_iff.mp h
    obtain ⟨a, b, rfl, hb, hmem, -, hle, hlen⟩ := ih ht
    refine ⟨c :: a, b, rfl, hb, ?_, fun _ => List.cons_ne_nil _ _, Nat.succ_le_succ hle, fun hpct => ?_⟩
    · intro x hx
      rcases List.mem_cons.mp hx with rfl | hx
      · exact List.mem_cons_self
      · exact List.mem_cons_of_mem _ (hmem x hx)
    · have hrest : '%' ∈ c' :: cs := (List.mem_cons.mp hpct).resolve_left (Ne.symm hc)
      exact Nat.succ_lt_succ (hlen hrest)

/-- The words of a format, with an argument as one word for each `%s`. -/
def expand : List (List Char) → List (List Char) → Option (List (List Char))
  | [], _ => some []
  | word :: words, args =>
    if word = ['%', 's'] then
      match args with
      | [] => none
      | arg :: args => (expand words args).map (arg :: ·)
    else if '%' ∈ word then none
    else (expand words args).map (word :: ·)

end Perception.Lib
