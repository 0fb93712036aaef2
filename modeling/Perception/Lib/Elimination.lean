import Mathlib.Data.List.Pairwise
import Mathlib.Logic.Relation

/-!
# Elimination in pairs

Each element in turn meets those behind it. Of two that conflict one is out: the later one,
unless it is still in and beats the earlier, whose turn ends then. What stays is free of
conflicts, and from everything that is out a chain of conflicts, each won by the next
element, leads to something that stays. The last element of the chain need not conflict with
the first.
-/
namespace Perception.Lib.Elimination

set_option autoImplicit false

variable {α : Type} (conflict beats : α → α → Bool)

/-- The turn of `d`: whether it stays in, and the elements behind it, each with whether it is
still in. -/
def turn (d : α) : List (α × Bool) → Bool × List (α × Bool)
  | [] => (true, [])
  | (e, alive) :: es =>
    if conflict d e then
      if alive && beats e d then (false, (e, alive) :: es)
      else ((turn d es).1, (e, false) :: (turn d es).2)
    else ((turn d es).1, (e, alive) :: (turn d es).2)

/-- The turns of all elements; a turn leaves one element less, so that the length of the list
is fuel enough. -/
def stays : Nat → List (α × Bool) → List α
  | 0, _ => []
  | _, [] => []
  | n + 1, (d, alive) :: es =>
    if alive then
      let r := turn conflict beats d es
      if r.1 then d :: stays n r.2 else stays n r.2
    else stays n es

def survivors (xs : List α) : List α := stays conflict beats xs.length (xs.map fun x => (x, true))

/-- The first element conflicts with the second and loses. -/
inductive Loses : α → α → Prop
  | later {d e : α} (h : conflict d e = true) (hlose : beats e d = false) : Loses e d
  | earlier {d e : α} (h : conflict d e = true) (hwin : beats e d = true) : Loses d e

variable {conflict beats} {d e : α} {es : List (α × Bool)} {n : Nat}

theorem map_fst_turn (d : α) (es : List (α × Bool)) : (turn conflict beats d es).2.map Prod.fst = es.map Prod.fst := by
  fun_induction turn conflict beats d es with
  | case1 => rfl
  | case2 => rfl
  | case3 e alive es hconf hbeats ih => rw [List.map_cons, ih, List.map_cons]
  | case4 e alive es hconf ih => rw [List.map_cons, ih, List.map_cons]

/-- What holds of all elements holds of those that a turn leaves. -/
theorem forall_turn {P : α → Prop} (hes : ∀ p ∈ es, P p.1) : ∀ p ∈ (turn conflict beats d es).2, P p.1 := by
  intro p hp
  have hmem : p.1 ∈ (turn conflict beats d es).2.map Prod.fst := List.mem_map_of_mem hp
  rw [map_fst_turn] at hmem
  obtain ⟨q, hq, heq⟩ := List.mem_map.mp hmem
  rw [← heq]
  exact hes q hq

theorem length_turn (d : α) (es : List (α × Bool)) : (turn conflict beats d es).2.length = es.length := by
  have hfst : (turn conflict beats d es).2.map Prod.fst = es.map Prod.fst := map_fst_turn d es
  have h := congrArg List.length hfst
  rwa [List.length_map, List.length_map] at h

/-- Nobody comes back in. -/
theorem sublist_turn (d : α) (es : List (α × Bool)) :
    (((turn conflict beats d es).2.filter Prod.snd).map Prod.fst).Sublist ((es.filter Prod.snd).map Prod.fst) := by
  fun_induction turn conflict beats d es with
  | case1 => exact List.Sublist.refl _
  | case2 => exact List.Sublist.refl _
  | case3 e alive es hconf hbeats ih =>
    rw [List.filter_cons_of_neg Bool.false_ne_true]
    cases alive with
    | true =>
      rw [List.filter_cons_of_pos rfl, List.map_cons]
      exact ih.cons _
    | false =>
      rw [List.filter_cons_of_neg Bool.false_ne_true]
      exact ih
  | case4 e alive es hconf ih =>
    cases alive with
    | true =>
      rw [List.filter_cons_of_pos rfl, List.filter_cons_of_pos rfl, List.map_cons, List.map_cons]
      exact ih.cons_cons _
    | false =>
      rw [List.filter_cons_of_neg Bool.false_ne_true, List.filter_cons_of_neg Bool.false_ne_true]
      exact ih

theorem stays_sublist (n : Nat) (es : List (α × Bool)) :
    (stays conflict beats n es).Sublist ((es.filter Prod.snd).map Prod.fst) := by
  fun_induction stays conflict beats n es with
  | case1 => exact List.nil_sublist _
  | case2 => exact List.nil_sublist _
  | case3 n d es r hstay ih =>
    rw [List.filter_cons_of_pos rfl, List.map_cons]
    exact (ih.trans (sublist_turn d es)).cons_cons d
  | case4 n d es r hstay ih =>
    rw [List.filter_cons_of_pos rfl, List.map_cons]
    exact (ih.trans (sublist_turn d es)).cons d
  | case5 n d alive es hout ih =>
    rw [List.filter_cons_of_neg hout]
    exact ih

theorem survivors_sublist (xs : List α) : (survivors conflict beats xs).Sublist xs := by
  have h : (stays conflict beats xs.length (xs.map fun x => (x, true))).Sublist _ := stays_sublist _ _
  have hall : ((xs.map fun x => (x, true)).filter Prod.snd).map Prod.fst = xs := by
    rw [List.filter_eq_self.mpr (by simp), List.map_map]
    exact List.map_id xs
  rwa [hall] at h

/-- When `d` stays in, nothing behind it that is still in conflicts with it. -/
theorem no_conflict_of_turn (d : α) (es : List (α × Bool)) (h : (turn conflict beats d es).1 = true) :
    ∀ p ∈ (turn conflict beats d es).2, p.2 = true → conflict d p.1 = false := by
  fun_induction turn conflict beats d es with
  | case1 => exact fun p hp => absurd hp List.not_mem_nil
  | case2 => cases h
  | case3 e alive es hconf hbeats ih =>
    intro p hp halive
    rcases List.mem_cons.mp hp with rfl | hp
    · cases halive
    · exact ih h p hp halive
  | case4 e alive es hconf ih =>
    intro p hp halive
    rcases List.mem_cons.mp hp with rfl | hp
    · exact Bool.not_eq_true _ ▸ hconf
    · exact ih h p hp halive

theorem stays_pairwise (n : Nat) (es : List (α × Bool)) :
    (stays conflict beats n es).Pairwise fun d e => conflict d e = false := by
  fun_induction stays conflict beats n es with
  | case1 => exact List.Pairwise.nil
  | case2 => exact List.Pairwise.nil
  | case3 n d es r hstay ih =>
    refine List.pairwise_cons.mpr ⟨fun e he => ?_, ih⟩
    obtain ⟨p, hp, rfl⟩ := List.mem_map.mp ((stays_sublist n r.2).subset he)
    obtain ⟨hmem, halive⟩ := List.mem_filter.mp hp
    exact no_conflict_of_turn d es hstay p hmem halive
  | case4 n d es r hstay ih => exact ih
  | case5 n d alive es hout ih => exact ih

/-- No two survivors conflict. -/
theorem survivors_pairwise (xs : List α) :
    (survivors conflict beats xs).Pairwise fun d e => conflict d e = false := stays_pairwise _ _

/-- What goes out in the turn of `d` loses against it. -/
theorem turn_alive (d : α) (es : List (α × Bool)) (he : (e, true) ∈ es) :
    (e, true) ∈ (turn conflict beats d es).2 ∨ Loses conflict beats e d := by
  fun_induction turn conflict beats d es with
  | case1 => exact absurd he List.not_mem_nil
  | case2 => exact .inl he
  | case3 x alive es hconf hbeats ih =>
    rcases List.mem_cons.mp he with heq | he
    · obtain ⟨rfl, rfl⟩ := Prod.mk.inj heq
      rw [Bool.true_and, Bool.not_eq_true] at hbeats
      exact .inr (.later hconf hbeats)
    · exact (ih he).imp_left (List.mem_cons_of_mem _)
  | case4 x alive es hconf ih =>
    rcases List.mem_cons.mp he with heq | he
    · rw [heq]
      exact .inl List.mem_cons_self
    · exact (ih he).imp_left (List.mem_cons_of_mem _)

/-- When `d` goes out, it loses against something that is still in. -/
theorem turn_out (d : α) (es : List (α × Bool)) (h : (turn conflict beats d es).1 = false) :
    ∃ e, (e, true) ∈ (turn conflict beats d es).2 ∧ Loses conflict beats d e := by
  fun_induction turn conflict beats d es with
  | case1 => cases h
  | case2 x alive es hconf hbeats =>
    obtain ⟨rfl, hwin⟩ := Bool.and_eq_true_iff.mp hbeats
    exact ⟨x, List.mem_cons_self, .earlier hconf hwin⟩
  | case3 x alive es hconf hbeats ih =>
    obtain ⟨e, he, hlose⟩ := ih h
    exact ⟨e, List.mem_cons_of_mem _ he, hlose⟩
  | case4 x alive es hconf ih =>
    obtain ⟨e, he, hlose⟩ := ih h
    exact ⟨e, List.mem_cons_of_mem _ he, hlose⟩

/-- The same, both being of `xs`. -/
def LosesAmong (conflict beats : α → α → Bool) (xs : List α) (d e : α) : Prop :=
  d ∈ xs ∧ e ∈ xs ∧ Loses conflict beats d e

theorem stays_chain {xs : List α} (n : Nat) (es : List (α × Bool)) (hn : es.length ≤ n) (hes : ∀ p ∈ es, p.1 ∈ xs) :
    ∀ e, (e, true) ∈ es →
      ∃ s ∈ stays conflict beats n es, Relation.ReflTransGen (LosesAmong conflict beats xs) e s := by
  fun_induction stays conflict beats n es with
  | case1 =>
    intro e he
    have hpos := List.length_pos_of_mem he
    omega
  | case2 => exact fun e he => absurd he List.not_mem_nil
  | case3 n d es r hstay ih =>
    obtain ⟨hd, hes⟩ := List.forall_mem_cons.mp hes
    have hlen : r.2.length ≤ n := by
      rw [length_turn]
      exact Nat.le_of_succ_le_succ hn
    intro e he
    rcases List.mem_cons.mp he with heq | he
    · obtain ⟨rfl, -⟩ := Prod.mk.inj heq
      exact ⟨e, List.mem_cons_self, Relation.ReflTransGen.refl⟩
    · rcases turn_alive d es he with halive | hlose
      · obtain ⟨s, hs, hchain⟩ := ih hlen (forall_turn hes) e halive
        exact ⟨s, List.mem_cons_of_mem _ hs, hchain⟩
      · exact ⟨d, List.mem_cons_self, Relation.ReflTransGen.single ⟨hes _ he, hd, hlose⟩⟩
  | case4 n d es r hstay ih =>
    obtain ⟨hd, hes⟩ := List.forall_mem_cons.mp hes
    have hlen : r.2.length ≤ n := by
      rw [length_turn]
      exact Nat.le_of_succ_le_succ hn
    -- the element of this turn and all that lost against it reach what it loses against
    obtain ⟨w, hw, hlosed⟩ := turn_out d es ((Bool.not_eq_true _).mp hstay)
    obtain ⟨s, hs, hchain⟩ := ih hlen (forall_turn hes) w hw
    have hfirst : LosesAmong conflict beats xs d w := ⟨hd, forall_turn hes _ hw, hlosed⟩
    intro e he
    rcases List.mem_cons.mp he with heq | he
    · obtain ⟨rfl, -⟩ := Prod.mk.inj heq
      exact ⟨s, hs, hchain.head hfirst⟩
    · rcases turn_alive d es he with halive | hlose
      · exact ih hlen (forall_turn hes) e halive
      · exact ⟨s, hs, (hchain.head hfirst).head ⟨hes _ he, hd, hlose⟩⟩
  | case5 n d alive es hout ih =>
    intro e he
    rcases List.mem_cons.mp he with heq | he
    · exact absurd (Prod.mk.inj heq).2.symm hout
    · exact ih (Nat.le_of_succ_le_succ hn) (List.forall_mem_cons.mp hes).2 e he

/-- From every element a chain of conflicts lost among the elements leads to a survivor. -/
theorem survivors_chain {xs : List α} (he : e ∈ xs) :
    ∃ s ∈ survivors conflict beats xs, Relation.ReflTransGen (LosesAmong conflict beats xs) e s := by
  apply stays_chain
  · exact Nat.le_of_eq (List.length_map _)
  · simp
  · exact List.mem_map_of_mem he

end Perception.Lib.Elimination
