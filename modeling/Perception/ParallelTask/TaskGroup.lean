import Mathlib.Data.List.Basic
import Mathlib.Tactic.ByContra
import Mathlib.Tactic.Push

/-!
# The first of several tasks

`WhenAny` runs its tasks and polls their futures until it has a result. The calls of `wait_for` are
counted; a future is ready from one of them on.
-/
namespace Perception.ParallelTask

set_option autoImplicit false

variable {R : Type}

inductive future_status
  | ready
  | timeout
  deriving DecidableEq

/-- A future with the first poll that finds it ready. -/
structure shared_future (R : Type) where
  readyFrom : Nat
  value : R
  deriving DecidableEq

namespace shared_future

def Ready (f : shared_future R) (poll : Nat) : Prop := f.readyFrom ≤ poll

instance (f : shared_future R) (poll : Nat) : Decidable (f.Ready poll) := by unfold Ready; infer_instance

def wait_for (f : shared_future R) (poll : Nat) : future_status := if f.Ready poll then .ready else .timeout

end shared_future

/-- A task with what its run comes to. -/
structure Task (R : Type) where
  readyFrom : Nat
  value : R

def Task.Run (t : Task R) : shared_future R := ⟨t.readyFrom, t.value⟩

def TransForm (range : List (Task R)) : List (shared_future R) := range.map Task.Run

/-- What is returned, with the number of the poll after which it was chosen. -/
structure Chosen (R : Type) where
  index : Nat
  value : R
  poll : Nat
  deriving DecidableEq

/-- The loop over the futures from index `i` on. Each future is polled twice, and the second answer
is looked at. -/
def pollEach (poll i : Nat) : List (shared_future R) → Option (Chosen R)
  | [] => none
  | f :: fv =>
    if f.wait_for (poll + 1) = .timeout then some ⟨i, f.value, poll + 1⟩ else pollEach (poll + 2) (i + 1) fv

/-- The endless loop, of which `fuel` turns are made. -/
def GetAnyResultPair (fv : List (shared_future R)) : Nat → Nat → Option (Chosen R)
  | 0, _ => none
  | fuel + 1, poll =>
    match pollEach poll 0 fv with
    | some chosen => some chosen
    | none => GetAnyResultPair fv fuel (poll + 2 * fv.length)

def WhenAny (range : List (Task R)) (fuel : Nat) : Option (Chosen R) := GetAnyResultPair (TransForm range) fuel 0

/-- The call comes back with the index of a future that was ready when it was chosen. -/
def ReturnsReady (range : List (Task R)) : Prop :=
  ∃ fuel chosen, WhenAny range fuel = some chosen ∧
    ∃ f ∈ (TransForm range)[chosen.index]?, f.Ready chosen.poll ∧ f.value = chosen.value

variable {fv : List (shared_future R)} {f : shared_future R} {chosen : Chosen R} {poll i : Nat}

theorem wait_for_eq_timeout : f.wait_for poll = .timeout ↔ ¬f.Ready poll := by
  unfold shared_future.wait_for
  split
  · next hready => exact iff_of_false nofun (fun h => h hready)
  · next hready => exact iff_of_true rfl hready

/-- A future that has been passed over stays so. -/
theorem ready_mono {poll' : Nat} (h : f.Ready poll) (hle : poll ≤ poll') : f.Ready poll' := Nat.le_trans h hle

/-- What one pass chooses was not ready. -/
theorem pollEach_eq_some (h : pollEach poll i fv = some chosen) :
    ∃ k f, chosen.index = i + k ∧ fv[k]? = some f ∧ chosen.poll = poll + 2 * k + 1 ∧ ¬f.Ready chosen.poll := by
  induction fv generalizing poll i with
  | nil => cases h
  | cons f fv ih =>
    unfold pollEach at h
    split at h
    · next htimeout =>
      obtain rfl := Option.some.inj h
      exact ⟨0, f, rfl, rfl, rfl, wait_for_eq_timeout.mp htimeout⟩
    · obtain ⟨k, f', hindex, hget, hpoll, hready⟩ := ih h
      refine ⟨k + 1, f', ?_, ?_, ?_, hready⟩
      · omega
      · exact hget
      · omega

/-- A pass chooses nothing exactly when it finds every future ready. -/
theorem pollEach_eq_none :
    pollEach poll i fv = none ↔ ∀ (k : Nat) (f : shared_future R), fv[k]? = some f → f.Ready (poll + 2 * k + 1) := by
  induction fv generalizing poll i with
  | nil => exact iff_of_true rfl nofun
  | cons f fv ih =>
    unfold pollEach
    constructor
    · intro h k f' hget
      split at h
      · cases h
      · next hready =>
        rw [wait_for_eq_timeout, not_not] at hready
        cases k with
        | zero =>
          obtain rfl := Option.some.inj hget
          exact hready
        | succ k =>
          have hlater := ih.mp h k f' hget
          rw [show poll + 2 * (k + 1) + 1 = poll + 2 + 2 * k + 1 by omega]
          exact hlater
    · intro h
      have hready : ¬f.wait_for (poll + 1) = .timeout := fun htimeout => wait_for_eq_timeout.mp htimeout (h 0 f rfl)
      rw [if_neg hready]
      apply ih.mpr
      intro k f' hget
      have hlater := h (k + 1) f' hget
      rw [show poll + 2 * (k + 1) + 1 = poll + 2 + 2 * k + 1 by omega] at hlater
      exact hlater

/-- The second of the two answers is a timeout whenever something is chosen. -/
theorem GetAnyResultPair_not_ready {fuel : Nat} (h : GetAnyResultPair fv fuel poll = some chosen) :
    ∃ f, fv[chosen.index]? = some f ∧ ¬f.Ready chosen.poll := by
  induction fuel generalizing poll with
  | zero => cases h
  | succ fuel ih =>
    unfold GetAnyResultPair at h
    split at h
    · next chosen' hpass =>
      obtain rfl := Option.some.inj h
      obtain ⟨k, f, hindex, hget, -, hready⟩ := pollEach_eq_some hpass
      rw [hindex, Nat.zero_add]
      exact ⟨f, hget, hready⟩
    · exact ih h

/-- After a pass that found every future ready so does every later one. -/
theorem GetAnyResultPair_of_ready (h : ∀ (k : Nat) (f : shared_future R), fv[k]? = some f → f.Ready (poll + 2 * k + 1))
    (fuel : Nat) : GetAnyResultPair fv fuel poll = none := by
  induction fuel generalizing poll with
  | zero => rfl
  | succ fuel ih =>
    rw [GetAnyResultPair, pollEach_eq_none.mpr h]
    apply ih
    intro k f hget
    exact ready_mono (h k f hget) (by omega)

/-- The call comes back exactly when the first pass finds a future that is not ready. -/
theorem whenAny_returns_iff (range : List (Task R)) :
    (∃ fuel chosen, WhenAny range fuel = some chosen) ↔
      ∃ (k : Nat) (f : shared_future R), (TransForm range)[k]? = some f ∧ ¬f.Ready (2 * k + 1) := by
  constructor
  · intro h
    obtain ⟨fuel, chosen, hcall⟩ := h
    by_contra hnone
    push Not at hnone
    have hready : ∀ (k : Nat) (f : shared_future R), (TransForm range)[k]? = some f → f.Ready (0 + 2 * k + 1) := by
      intro k f hget
      rw [Nat.zero_add]
      exact hnone k f hget
    rw [WhenAny, GetAnyResultPair_of_ready hready fuel] at hcall
    cases hcall
  · intro h
    obtain ⟨k, f, hget, hready⟩ := h
    cases hpass : pollEach 0 0 (TransForm range) with
    | none =>
      have hall := pollEach_eq_none.mp hpass k f hget
      rw [Nat.zero_add] at hall
      exact absurd hall hready
    | some chosen =>
      refine ⟨1, chosen, ?_⟩
      rw [WhenAny, GetAnyResultPair, hpass]

/-- **The exit test.** Whatever the tasks are and whenever they finish, the call does not come back
with one that had finished. -/
theorem not_returnsReady (range : List (Task R)) : ¬ReturnsReady range := by
  intro h
  obtain ⟨fuel, chosen, hcall, f, hget, hready, -⟩ := h
  obtain ⟨f', hget', hready'⟩ := GetAnyResultPair_not_ready hcall
  rw [Option.mem_def, hget'] at hget
  obtain rfl := Option.some.inj hget
  exact hready' hready

/-- Both tasks have finished before the first poll, and the call does not come back. -/
theorem not_returnsReady_finished : ¬ReturnsReady [(⟨0, 1⟩ : Task Nat), ⟨0, 2⟩] := by
  intro h
  obtain ⟨fuel, chosen, hcall, -⟩ := h
  obtain ⟨k, f, hget, hready⟩ := (whenAny_returns_iff _).mp ⟨fuel, chosen, hcall⟩
  apply hready
  match k, hget with
  | 0, hget =>
    obtain rfl := Option.some.inj hget
    exact Nat.zero_le _
  | 1, hget =>
    obtain rfl := Option.some.inj hget
    exact Nat.zero_le _

/-- Of a task that has finished and one that has not the second is returned. -/
example : WhenAny [⟨0, 1⟩, ⟨9, 2⟩] 1 = some (⟨1, 2, 3⟩ : Chosen Nat) := by decide

end Perception.ParallelTask
