import Mathlib.Data.List.Basic

/-!
# A bounded queue that drops what comes when it is full

Next to what waits it says what arrived and what was taken.
-/
namespace Perception.Lib

set_option autoImplicit false

structure Fifo (α : Type) where
  waiting : List α := []
  arrived : List α := []
  taken : List α := []

namespace Fifo

variable {α : Type}

def arrive (capacity : Nat) (q : Fifo α) (a : α) : Fifo α :=
  { q with
    waiting := if q.waiting.length < capacity then q.waiting ++ [a] else q.waiting
    arrived := q.arrived ++ [a] }

def take (q : Fifo α) : Fifo α := { q with waiting := q.waiting.tail, taken := q.taken ++ q.waiting.head?.toList }

/-- All that waits is dropped. -/
def clear (q : Fifo α) : Fifo α := { q with waiting := [] }

/-- What was taken and what waits arrived in this order. -/
structure Ordered (capacity : Nat) (q : Fifo α) : Prop where
  bound : q.waiting.length ≤ capacity
  order : (q.taken ++ q.waiting).Sublist q.arrived

variable {capacity : Nat} {q : Fifo α}

theorem ordered_empty : Ordered capacity ({} : Fifo α) := ⟨Nat.zero_le _, List.Sublist.slnil⟩

theorem Ordered.arrive (h : q.Ordered capacity) (a : α) : (q.arrive capacity a).Ordered capacity := by
  unfold Fifo.arrive
  split
  · next hroom =>
    constructor
    · rw [List.length_append, List.length_singleton]
      exact hroom
    · rw [← List.append_assoc]
      exact h.order.append_right [a]
  · exact ⟨h.bound, h.order.trans (List.sublist_append_left _ _)⟩

theorem Ordered.take (h : q.Ordered capacity) : q.take.Ordered capacity := by
  obtain ⟨waiting, arrived, taken⟩ := q
  cases waiting with
  | nil => simpa [Fifo.take] using h
  | cons a waiting =>
    constructor
    · exact Nat.le_of_succ_le h.bound
    · simpa [Fifo.take] using h.order

theorem Ordered.clear (h : q.Ordered capacity) : q.clear.Ordered capacity := by
  constructor
  · exact Nat.zero_le _
  · apply List.Sublist.trans _ h.order
    show (q.taken ++ []).Sublist (q.taken ++ q.waiting)
    exact (List.Sublist.refl _).append (List.nil_sublist _)

end Fifo

end Perception.Lib
