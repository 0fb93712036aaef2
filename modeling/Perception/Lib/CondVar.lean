import Mathlib.Data.List.Basic

/-!
# Threads at a condition variable

A thread that waits is asleep until a notification or a spurious wake-up. A woken thread
stays at the variable until it has the mutex back.
-/
namespace Perception.Lib

set_option autoImplicit false

structure CondVar (τ : Type) where
  asleep : List τ := []
  woken : List τ := []
  deriving DecidableEq

namespace CondVar

variable {τ : Type}

/-- Threads that called `wait` and have not come back from it. -/
def size (c : CondVar τ) : Nat := c.asleep.length + c.woken.length

def wait (c : CondVar τ) (t : τ) : CondVar τ := { c with asleep := t :: c.asleep }

def notify_all (c : CondVar τ) : CondVar τ := ⟨[], c.asleep ++ c.woken⟩

variable {c c' : CondVar τ} {t : τ}

@[simp] theorem size_wait : (c.wait t).size = c.size + 1 := by
  simp only [size, wait, List.length_cons]
  omega

@[simp] theorem asleep_notify_all : c.notify_all.asleep = [] := rfl

theorem size_eq_zero : c.size = 0 ↔ c.asleep = [] ∧ c.woken = [] := by
  unfold size
  rw [Nat.add_eq_zero_iff, List.length_eq_zero_iff, List.length_eq_zero_iff]

variable [DecidableEq τ]

/-- The thread stands at the variable. -/
def At (c : CondVar τ) (t : τ) : Prop := t ∈ c.asleep ∨ t ∈ c.woken

instance (c : CondVar τ) (t : τ) : Decidable (c.At t) := by unfold At; infer_instance

/-- One sleeping thread wakes. -/
def wake (c : CondVar τ) (t : τ) : Option (CondVar τ) :=
  if t ∈ c.asleep then some ⟨c.asleep.erase t, t :: c.woken⟩ else none

/-- Which sleeping thread is notified is not determined; with none asleep the call does
nothing. -/
def notify_one (c : CondVar τ) : Option τ → Option (CondVar τ)
  | none => if c.asleep = [] then some c else none
  | some t => c.wake t

/-- A woken thread has the mutex again. -/
def resume (c : CondVar τ) (t : τ) : Option (CondVar τ) :=
  if t ∈ c.woken then some { c with woken := c.woken.erase t } else none

theorem wake_spec (h : c.wake t = some c') : c'.size = c.size ∧ c'.woken ≠ [] := by
  unfold wake at h
  split at h
  · next hmem =>
    obtain rfl := Option.some.inj h
    have hlen := List.length_erase_of_mem hmem
    have hpos := List.length_pos_of_mem hmem
    refine ⟨?_, List.cons_ne_nil _ _⟩
    simp only [size, List.length_cons]
    omega
  · cases h

theorem woken_of_wake (h : c.wake t = some c') : c.asleep ≠ [] ∧ c'.woken.length = c.woken.length + 1 := by
  unfold wake at h
  split at h
  · next hmem =>
    obtain rfl := Option.some.inj h
    exact ⟨List.ne_nil_of_mem hmem, rfl⟩
  · cases h

/-- One more thread is on its way unless none was asleep. -/
theorem woken_of_notify_one {choice : Option τ} (h : c.notify_one choice = some c') :
    c.asleep = [] ∧ c' = c ∨ c.asleep ≠ [] ∧ c'.woken.length = c.woken.length + 1 := by
  cases choice with
  | none =>
    simp only [notify_one] at h
    split at h
    · next hnil => exact .inl ⟨hnil, (Option.some.inj h).symm⟩
    · cases h
  | some u => exact .inr (woken_of_wake h)

/-- A notification is not lost while somebody is asleep. -/
theorem notify_one_spec {choice : Option τ} (h : c.notify_one choice = some c') :
    c'.size = c.size ∧ (c'.asleep ≠ [] → c'.woken ≠ []) := by
  cases choice with
  | none =>
    simp only [notify_one] at h
    split at h
    · next hnil =>
      obtain rfl := Option.some.inj h
      exact ⟨rfl, fun hne => absurd hnil hne⟩
    · cases h
  | some u =>
    obtain ⟨hsize, hwoken⟩ := wake_spec h
    exact ⟨hsize, fun _ => hwoken⟩

theorem resume_spec (h : c.resume t = some c') : c.size = c'.size + 1 ∧ c'.asleep = c.asleep := by
  unfold resume at h
  split at h
  · next hmem =>
    obtain rfl := Option.some.inj h
    have hlen := List.length_erase_of_mem hmem
    have hpos := List.length_pos_of_mem hmem
    refine ⟨?_, rfl⟩
    simp only [size]
    omega
  · cases h

theorem asleep_of_wake (h : c.wake t = some c') (hnil : c.asleep = []) : c'.asleep = [] := by
  unfold wake at h
  rw [hnil] at h
  cases h

end CondVar

end Perception.Lib
