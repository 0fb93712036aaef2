import Mathlib.Data.List.Rotate

/-!
# Undoing a sequence of steps

Steps that can each be undone are undone in the reverse order, and the states in between come
back in the reverse order as well. What is between the steps of a sequence stays between them.
-/
namespace Perception.Lib.Undo

set_option autoImplicit false

variable {σ ι : Type} {V : σ → Prop} {step back : σ → ι → σ}

/-- The states after each step. -/
def states (step : σ → ι → σ) : σ → List ι → List σ
  | _, [] => []
  | x, t :: ts => step x t :: states step (step x t) ts

theorem forall_mem_states {P : σ → Prop} {ts : List ι} (h : ∀ x t, P x → P (step x t)) {x : σ} (hx : P x) :
    ∀ y ∈ states step x ts, P y := by
  induction ts generalizing x with
  | nil => exact nofun
  | cons t ts ih => exact List.forall_mem_cons.mpr ⟨h x t hx, ih (h x t hx)⟩

/-- A step keeps a state valid, and is undone by another. -/
def Undoes (V : σ → Prop) (step back : σ → ι → σ) (t : ι) : Prop :=
  ∀ x, V x → V (step x t) ∧ back (step x t) t = x

theorem valid_foldl {ts : List ι} (h : ∀ t ∈ ts, Undoes V step back t) {x : σ} (hx : V x) : V (ts.foldl step x) := by
  induction ts generalizing x with
  | nil => exact hx
  | cons t ts ih =>
    obtain ⟨ht, hts⟩ := List.forall_mem_cons.mp h
    exact ih hts (ht x hx).1

/-- The last step is undone first. -/
theorem foldl_undo {ts : List ι} (h : ∀ t ∈ ts, Undoes V step back t) {x : σ} (hx : V x) :
    ts.reverse.foldl back (ts.foldl step x) = x := by
  induction ts generalizing x with
  | nil => rfl
  | cons t ts ih =>
    obtain ⟨ht, hts⟩ := List.forall_mem_cons.mp h
    obtain ⟨hvalid, hback⟩ := ht x hx
    rw [List.foldl_cons, List.reverse_cons, List.foldl_append, ih hts hvalid, List.foldl_cons, List.foldl_nil, hback]

theorem states_append_singleton (x : σ) (ts : List ι) (t : ι) :
    states step x (ts ++ [t]) = states step x ts ++ [step (ts.foldl step x) t] := by
  induction ts generalizing x with
  | nil => rfl
  | cons t' ts ih => rw [List.cons_append, states, ih, List.foldl_cons, states, List.cons_append]

/-- The states of a sequence are those of undoing it, in reverse. -/
theorem states_undo {ts : List ι} (h : ∀ t ∈ ts, Undoes V step back t) {x : σ} (hx : V x) :
    x :: states step x ts = (ts.foldl step x :: states back (ts.foldl step x) ts.reverse).reverse := by
  induction ts using List.reverseRecOn with
  | nil => rfl
  | append_singleton ts t ih =>
    obtain ⟨hts, ht⟩ := List.forall_mem_append.mp h
    have hlast := (ht t (List.mem_singleton_self t) (ts.foldl step x) (valid_foldl hts hx)).2
    rw [states_append_singleton, ← List.cons_append, ih hts, List.foldl_append, List.foldl_cons, List.foldl_nil,
      List.reverse_append, List.reverse_singleton, List.singleton_append, states, hlast,
      List.reverse_cons (a := step _ _)]

theorem intersperse_append_singleton {α : Type} (s : α) : ∀ (xs : List α), xs ≠ [] → ∀ x,
    (xs ++ [x]).intersperse s = xs.intersperse s ++ [s, x]
  | [_], _, _ => rfl
  | y :: z :: xs, _, x => by
    have ih := intersperse_append_singleton s (z :: xs) (List.cons_ne_nil z xs) x
    rw [List.cons_append] at ih
    rw [List.cons_append, List.cons_append, List.intersperse_cons_cons, ih, List.intersperse_cons_cons, List.cons_append,
      List.cons_append]

theorem reverse_intersperse {α : Type} (s : α) : ∀ xs : List α, (xs.intersperse s).reverse = xs.reverse.intersperse s
  | [] => rfl
  | [_] => rfl
  | x :: y :: xs => by
    have hne : (y :: xs).reverse ≠ [] := by
      rw [ne_eq, List.reverse_eq_nil_iff]
      exact List.cons_ne_nil y xs
    rw [List.intersperse_cons_cons, List.reverse_cons, List.reverse_cons, reverse_intersperse s (y :: xs),
      List.reverse_cons (a := x), intersperse_append_singleton s _ hne, List.append_assoc, List.singleton_append]

theorem mem_of_mem_intersperse {α : Type} {s a : α} : ∀ {xs : List α}, a ∈ xs.intersperse s → a = s ∨ a ∈ xs
  | [_], h => .inr h
  | x :: y :: xs, h => by
    rw [List.intersperse_cons_cons] at h
    rcases List.mem_cons.mp h with rfl | h
    · exact .inr List.mem_cons_self
    · rcases List.mem_cons.mp h with rfl | h
      · exact .inl rfl
      · exact (mem_of_mem_intersperse h).imp_right (List.mem_cons_of_mem x)

end Perception.Lib.Undo
