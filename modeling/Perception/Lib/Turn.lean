import Mathlib.Data.List.Basic

/-!
# Loops that may end early

A turn of the loop adds an element to the result or does not, or ends the loop, or throws.
The result has what every turn on its own would add exactly when nothing behind an early end
would have added anything, and nothing throws before it.
-/
namespace Perception.Lib

set_option autoImplicit false

inductive Turn (β : Type)
  | skip
  | stop
  | emit (b : β)

namespace Turn

variable {ε α β : Type}

def loop (turn : α → Except ε (Turn β)) : List α → Except ε (List β)
  | [] => .ok []
  | a :: as =>
    match turn a with
    | .error e => .error e
    | .ok .skip => loop turn as
    | .ok .stop => .ok []
    | .ok (.emit b) => (loop turn as).map (b :: ·)

/-- What one turn adds. -/
def emitted : Except ε (Turn β) → Option β
  | .ok (.emit b) => some b
  | _ => none

/-- A turn that ends the loop has nothing to add behind it, and one that throws is behind
such a turn. -/
def Harmless (turn : α → Except ε (Turn β)) (as : List α) : Prop :=
  ∀ pre a post, as = pre ++ a :: post →
    (turn a = .ok .stop → ∀ b ∈ post, emitted (turn b) = none) ∧
      ((∃ e, turn a = .error e) → ∃ b ∈ pre, turn b = .ok .stop)

variable {turn : α → Except ε (Turn β)} {a : α} {as : List α} {b : β} {e : ε}

theorem not_harmless_of_error (h : turn a = .error e) : ¬ Harmless turn (a :: as) := by
  intro hharm
  obtain ⟨b, hb, -⟩ := (hharm [] a as rfl).2 ⟨e, h⟩
  exact List.not_mem_nil hb

theorem harmless_of_stop (h : turn a = .ok .stop) : Harmless turn (a :: as) ↔ ∀ b ∈ as, emitted (turn b) = none := by
  constructor
  · intro hharm
    exact (hharm [] a as rfl).1 h
  · intro hnone pre c post hsplit
    cases pre with
    | nil =>
      obtain ⟨rfl, rfl⟩ := List.cons.inj hsplit
      refine ⟨fun _ => hnone, fun ⟨e, he⟩ => ?_⟩
      rw [h] at he
      cases he
    | cons d pre =>
      obtain ⟨rfl, rfl⟩ := List.cons.inj hsplit
      refine ⟨fun _ b hb => ?_, fun _ => ⟨a, List.mem_cons_self, h⟩⟩
      exact hnone b (List.mem_append_right _ (List.mem_cons_of_mem _ hb))

theorem harmless_cons (hstop : turn a ≠ .ok .stop) (herror : ∀ e, turn a ≠ .error e) :
    Harmless turn (a :: as) ↔ Harmless turn as := by
  constructor
  · intro hharm pre c post hsplit
    obtain ⟨h₁, h₂⟩ := hharm (a :: pre) c post (by rw [hsplit, List.cons_append])
    refine ⟨h₁, fun he => ?_⟩
    obtain ⟨b, hb, hbs⟩ := h₂ he
    rcases List.mem_cons.mp hb with rfl | hb
    · exact absurd hbs hstop
    · exact ⟨b, hb, hbs⟩
  · intro hharm pre c post hsplit
    cases pre with
    | nil =>
      obtain ⟨rfl, rfl⟩ := List.cons.inj hsplit
      exact ⟨fun hc => absurd hc hstop, fun ⟨e, he⟩ => absurd he (herror e)⟩
    | cons d pre =>
      obtain ⟨rfl, htail⟩ := List.cons.inj hsplit
      obtain ⟨h₁, h₂⟩ := hharm pre c post htail
      refine ⟨h₁, fun he => ?_⟩
      obtain ⟨b, hb, hbs⟩ := h₂ he
      exact ⟨b, List.mem_cons_of_mem _ hb, hbs⟩

/-- The loop gives what each turn on its own adds exactly when its early ends do no harm. -/
theorem loop_eq_filterMap_iff (as : List α) :
    loop turn as = .ok (as.filterMap fun a => emitted (turn a)) ↔ Harmless turn as := by
  induction as with
  | nil => exact iff_of_true rfl fun pre a post h => by simp at h
  | cons a as ih =>
    rw [loop, List.filterMap_cons]
    cases hturn : turn a with
    | error e => exact iff_of_false (fun h => nomatch h) (not_harmless_of_error hturn)
    | ok t =>
      cases t with
      | skip =>
        rw [harmless_cons (by rw [hturn]; exact fun h => nomatch h) (by rw [hturn]; exact fun e h => nomatch h)]
        exact ih
      | stop =>
        rw [harmless_of_stop hturn, ← List.filterMap_eq_nil_iff]
        exact ⟨fun h => (Except.ok.inj h).symm, fun h => congrArg Except.ok h.symm⟩
      | emit b =>
        rw [harmless_cons (by rw [hturn]; exact fun h => nomatch h) (by rw [hturn]; exact fun e h => nomatch h), ← ih]
        cases loop turn as with
        | error e => exact iff_of_false (fun h => nomatch h) (fun h => nomatch h)
        | ok bs => simp [Except.map, emitted]

end Turn

end Perception.Lib
