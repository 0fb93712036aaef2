import Mathlib.Logic.Function.Basic
import Perception.Lib.CondVar
import Perception.Lib.History

/-!
# The bounded thread pool

What a thread does while it has `mTaskMutex` is one step, and so is a notification without it.
Workers that wait are asleep or woken at `mTaskCondEmpty`. Which tasks were accepted and who took
them is not part of the source.
-/
namespace Perception.Thread

set_option autoImplicit false

open Perception.Lib Perception.Lib.History

/-- `bthreadpoll_max_threads`. -/
def bthreadpoll_max_threads : Nat := 30

/-- Where a worker is in `Runing`. -/
inductive Worker (T : Type)
  /-- At the condition of the loop. -/
  | looping
  /-- In front of the mutex. -/
  | locking
  | asleep
  | woken
  | running (task : T)
  | ended
  deriving DecidableEq

/-- How far `StopAllThread` is. -/
inductive Stop
  | before
  | set
  | notifiedFull
  | notifiedEmpty
  deriving DecidableEq

structure BThreadPool (P T : Type) where
  mNumThreads : Nat
  mMaxQueueSize : Nat
  mTaskQueue : List T := []
  /-- The producers at the variable, each with the task of its call. -/
  mTaskCondFull : CondVar (P × T) := {}
  mbStop : Bool := false
  mWorkers : Nat → Worker T := fun _ => .looping
  /-- Producers between their push and their notification. -/
  pushed : List P := []
  stop : Stop := .before
  accepted : List T := []
  taken : List (Nat × T) := []

inductive PoolEvent (P T : Type)
  | AddTask (producer : P) (task : T)
  /-- A spurious wake-up. -/
  | wakeProducer (producer : P) (task : T)
  /-- A woken producer has the mutex and looks at its condition. -/
  | resumeProducer (producer : P) (task : T)
  | notifyEmpty (producer : P) (notified : Option Nat)
  | loop (worker : Nat)
  /-- The worker has the mutex, for the first time or because it was woken. -/
  | lock (worker : Nat) (notified : Option (P × T))
  | wakeWorker (worker : Nat)
  | finish (worker : Nat)
  | setStop
  | notifyAllFull
  | notifyAllEmpty

namespace BThreadPool

variable {P T : Type}

/-- The constructor. A negative `int` is compared with the limit as a `size_t`. -/
def new (numThreads : Int32) : BThreadPool P T :=
  let mNumThreads :=
    if numThreads.toInt < 0 ∨ bthreadpoll_max_threads < numThreads.toInt.toNat then bthreadpoll_max_threads
    else numThreads.toInt.toNat
  { mNumThreads, mMaxQueueSize := mNumThreads * 10 }

def setWorker (s : BThreadPool P T) (w : Nat) (place : Worker T) : BThreadPool P T :=
  { s with mWorkers := Function.update s.mWorkers w place }

/-- A step of one of the workers, from the place where it is. -/
def atWorker (s : BThreadPool P T) (w : Nat) (next : Worker T → Option (BThreadPool P T)) : Option (BThreadPool P T) :=
  if w < s.mNumThreads then next (s.mWorkers w) else none

/-- `AddTask` from the condition of the wait on. On a stopped pool the call throws. -/
def addSection (s : BThreadPool P T) (p : P) (task : T) : BThreadPool P T :=
  if s.mbStop then s
  else if s.mTaskQueue.length < s.mMaxQueueSize then
    { s with mTaskQueue := s.mTaskQueue ++ [task], pushed := p :: s.pushed, accepted := s.accepted ++ [task] }
  else { s with mTaskCondFull := s.mTaskCondFull.wait (p, task) }

section

variable [DecidableEq P] [DecidableEq T]

/-- `Runing` from the condition of the wait to the end of the section. -/
def takeSection (s : BThreadPool P T) (w : Nat) (notified : Option (P × T)) : Option (BThreadPool P T) :=
  if s.mbStop then some (s.setWorker w .ended)
  else match s.mTaskQueue with
    | [] => some (s.setWorker w .asleep)
    | task :: mTaskQueue =>
      (s.mTaskCondFull.notify_one notified).map fun mTaskCondFull =>
        { s with mTaskQueue, mTaskCondFull, taken := s.taken ++ [(w, task)] }.setWorker w (.running task)

/-- `notify_one` at `mTaskCondEmpty`. -/
def notifyWorker (s : BThreadPool P T) : Option Nat → Option (BThreadPool P T)
  | none => if ∀ w < s.mNumThreads, s.mWorkers w ≠ .asleep then some s else none
  | some w => if w < s.mNumThreads ∧ s.mWorkers w = .asleep then some (s.setWorker w .woken) else none

/-- The producer is in a call. -/
def Busy (s : BThreadPool P T) (p : P) : Prop :=
  p ∈ s.pushed ∨ p ∈ s.mTaskCondFull.asleep.map Prod.fst ∨ p ∈ s.mTaskCondFull.woken.map Prod.fst

instance (s : BThreadPool P T) (p : P) : Decidable (s.Busy p) := by unfold Busy; infer_instance

def step (s : BThreadPool P T) : PoolEvent P T → Option (BThreadPool P T)
  | .AddTask p task => if s.Busy p then none else some (s.addSection p task)
  | .wakeProducer p task => (s.mTaskCondFull.wake (p, task)).map fun mTaskCondFull => { s with mTaskCondFull }
  | .resumeProducer p task =>
    (s.mTaskCondFull.resume (p, task)).map fun mTaskCondFull => { s with mTaskCondFull }.addSection p task
  | .notifyEmpty p notified =>
    if p ∈ s.pushed then { s with pushed := s.pushed.erase p }.notifyWorker notified else none
  | .loop w => s.atWorker w fun
    | .looping => some (s.setWorker w (if s.mbStop then .ended else .locking))
    | _ => none
  | .lock w notified => s.atWorker w fun
    | .locking => s.takeSection w notified
    | .woken => s.takeSection w notified
    | _ => none
  | .wakeWorker w => s.atWorker w fun
    | .asleep => some (s.setWorker w .woken)
    | _ => none
  | .finish w => s.atWorker w fun
    | .running _ => some (s.setWorker w .looping)
    | _ => none
  | .setStop => if s.stop = .before then some { s with mbStop := true, stop := .set } else none
  | .notifyAllFull =>
    if s.stop = .set then some { s with mTaskCondFull := s.mTaskCondFull.notify_all, stop := .notifiedFull } else none
  | .notifyAllEmpty =>
    if s.stop = .notifiedFull then
      some { s with
        mWorkers := fun w => if s.mWorkers w = .asleep then .woken else s.mWorkers w
        stop := .notifiedEmpty }
    else none

end

/-- Tasks wait while every worker is asleep and no notification is on its way. -/
def StuckEmpty (s : BThreadPool P T) : Prop :=
  s.mTaskQueue ≠ [] ∧ (∀ w < s.mNumThreads, s.mWorkers w = .asleep) ∧ s.pushed = []

/-- A producer is asleep for a place in a queue that has one, and none is on its way. -/
def StuckFull (s : BThreadPool P T) : Prop :=
  s.mTaskQueue.length < s.mMaxQueueSize ∧ s.mTaskCondFull.asleep ≠ [] ∧ s.mTaskCondFull.woken = []

/-- The `i`-th task that is taken is the `i`-th that was accepted. -/
structure Sound (s : BThreadPool P T) : Prop where
  order : s.taken.map Prod.snd <+: s.accepted
  taken_by : ∀ x ∈ s.taken, x.1 < s.mNumThreads
  bound : s.mTaskQueue.length ≤ s.mMaxQueueSize
  empty : s.mbStop = false → ¬s.StuckEmpty
  full : s.mbStop = false → ¬s.StuckFull

/-- Tasks wait for a worker that is not asleep or for one that will be notified; producers are
asleep only while each free place is for a producer that is on its way, of which `entering` have
left the variable. -/
structure Inv (entering : Nat) (s : BThreadPool P T) : Prop where
  queue : s.taken.map Prod.snd ++ s.mTaskQueue = s.accepted
  taken_by : ∀ x ∈ s.taken, x.1 < s.mNumThreads
  bound : s.mTaskQueue.length ≤ s.mMaxQueueSize
  size : s.mMaxQueueSize = s.mNumThreads * 10
  empty : s.mTaskQueue ≠ [] → s.pushed = [] → ∃ w < s.mNumThreads, s.mWorkers w ≠ .asleep
  full : s.mbStop = false → s.mTaskCondFull.asleep ≠ [] →
    s.mMaxQueueSize ≤ s.mTaskQueue.length + s.mTaskCondFull.woken.length + entering

variable {s s' : BThreadPool P T} {p : P} {task : T} {w entering : Nat} {place : Worker T}

theorem Inv.sound (h : Inv 0 s) : s.Sound where
  order := ⟨s.mTaskQueue, h.queue⟩
  taken_by := h.taken_by
  bound := h.bound
  empty := by
    intro _ hstuck
    obtain ⟨hqueue, hasleep, hpushed⟩ := hstuck
    obtain ⟨w, hw, hawake⟩ := h.empty hqueue hpushed
    exact hawake (hasleep w hw)
  full := by
    intro hstop hstuck
    obtain ⟨hroom, hasleep, hwoken⟩ := hstuck
    have hfull := h.full hstop hasleep
    rw [hwoken, List.length_nil] at hfull
    omega

theorem inv_new (numThreads : Int32) : Inv 0 (new numThreads : BThreadPool P T) where
  queue := rfl
  taken_by := nofun
  bound := Nat.zero_le _
  size := rfl
  empty := fun h => absurd rfl h
  full := fun _ h => absurd rfl h

theorem mWorkers_setWorker_self (s : BThreadPool P T) (w : Nat) (place : Worker T) :
    (s.setWorker w place).mWorkers w = place := Function.update_self ..

/-- A worker that is not asleep is enough for the tasks. -/
theorem Inv.setWorker (h : Inv entering s) (hw : w < s.mNumThreads) (hawake : place ≠ .asleep) :
    Inv entering (s.setWorker w place) where
  queue := h.queue
  taken_by := h.taken_by
  bound := h.bound
  size := h.size
  empty := by
    intro _ _
    refine ⟨w, hw, ?_⟩
    rw [mWorkers_setWorker_self]
    exact hawake
  full := h.full

theorem Inv.sleep (h : Inv entering s) (hqueue : s.mTaskQueue = []) : Inv entering (s.setWorker w .asleep) where
  queue := h.queue
  taken_by := h.taken_by
  bound := h.bound
  size := h.size
  empty := fun hne => absurd hqueue hne
  full := h.full

/-- A producer that has the mutex takes a free place, or sleeps because there is none. -/
theorem Inv.addSection (h : Inv entering s) (hentering : entering ≤ 1) (p : P) (task : T) :
    Inv 0 (s.addSection p task) := by
  unfold BThreadPool.addSection
  split
  · next hstop =>
    refine ⟨h.queue, h.taken_by, h.bound, h.size, h.empty, fun hgo => ?_⟩
    rw [hstop] at hgo
    cases hgo
  · split
    · next hroom =>
      refine ⟨?_, h.taken_by, ?_, h.size, fun _ hpushed => absurd hpushed (List.cons_ne_nil _ _), ?_⟩
      · rw [← List.append_assoc, h.queue]
      · rw [List.length_append, List.length_singleton]
        exact hroom
      · intro hgo hasleep
        have hfull := h.full hgo hasleep
        change s.mMaxQueueSize ≤ (s.mTaskQueue ++ [task]).length + s.mTaskCondFull.woken.length + 0
        rw [List.length_append, List.length_singleton]
        omega
    · next hroom =>
      refine ⟨h.queue, h.taken_by, h.bound, h.size, h.empty, fun _ _ => ?_⟩
      change s.mMaxQueueSize ≤ s.mTaskQueue.length + s.mTaskCondFull.woken.length + 0
      omega

theorem Inv.atWorker {next : Worker T → Option (BThreadPool P T)} (hstep : s.atWorker w next = some s')
    (hnext : w < s.mNumThreads → ∀ place, next place = some s' → Inv 0 s') : Inv 0 s' := by
  unfold BThreadPool.atWorker at hstep
  split at hstep
  · next hw => exact hnext hw _ hstep
  · cases hstep

section

variable [DecidableEq P] [DecidableEq T]

/-- The place that a worker frees is for the producer that it notifies. -/
theorem Inv.takeSection {notified : Option (P × T)} (h : Inv 0 s) (hw : w < s.mNumThreads)
    (hstep : s.takeSection w notified = some s') : Inv 0 s' := by
  unfold BThreadPool.takeSection at hstep
  split at hstep
  · obtain rfl := Option.some.inj hstep
    exact h.setWorker hw nofun
  · split at hstep
    · next hqueue =>
      obtain rfl := Option.some.inj hstep
      exact h.sleep hqueue
    · next task mTaskQueue hqueue =>
      obtain ⟨mTaskCondFull, hnotify, rfl⟩ := Option.map_eq_some_iff.mp hstep
      have hsum := h.queue
      have hbound := h.bound
      rw [hqueue] at hsum hbound
      refine ⟨?_, ?_, Nat.le_of_succ_le hbound, h.size, fun _ _ => ⟨w, hw, ?_⟩, fun hgo hasleep => ?_⟩
      · change (s.taken ++ [(w, task)]).map Prod.snd ++ mTaskQueue = s.accepted
        rw [List.map_append, List.append_assoc, ← hsum]
        rfl
      · intro x hx
        rcases List.mem_append.mp hx with hx | hx
        · exact h.taken_by x hx
        · obtain rfl := List.mem_singleton.mp hx
          exact hw
      · rw [mWorkers_setWorker_self]
        intro he
        cases he
      · rcases CondVar.woken_of_notify_one hnotify with ⟨hnone, rfl⟩ | ⟨hsome, hwoken⟩
        · exact absurd hnone hasleep
        · have hfull := h.full hgo hsome
          rw [hqueue, List.length_cons] at hfull
          change s.mMaxQueueSize ≤ mTaskQueue.length + mTaskCondFull.woken.length + 0
          omega

/-- With a worker asleep the notification wakes one. -/
theorem Inv.notifyWorker {notified : Option Nat} (h : Inv 0 s)
    (hstep : { s with pushed := s.pushed.erase p }.notifyWorker notified = some s') : Inv 0 s' := by
  unfold BThreadPool.notifyWorker at hstep
  split at hstep
  · split at hstep
    · next hawake =>
      obtain rfl := Option.some.inj hstep
      refine ⟨h.queue, h.taken_by, h.bound, h.size, fun hqueue _ => ?_, h.full⟩
      -- a pool whose queue has room for a task has a worker
      have hlength := List.length_pos_of_ne_nil hqueue
      have hbound := h.bound
      have hsize := h.size
      have hworker : 0 < s.mNumThreads := by
        change 0 < s.mTaskQueue.length at hlength
        omega
      exact ⟨0, hworker, hawake 0 hworker⟩
    · cases hstep
  · split at hstep
    · next w hasleep =>
      obtain rfl := Option.some.inj hstep
      refine ⟨h.queue, h.taken_by, h.bound, h.size, fun _ _ => ⟨w, hasleep.1, ?_⟩, h.full⟩
      rw [mWorkers_setWorker_self]
      nofun
    · cases hstep

theorem Inv.step {e : PoolEvent P T} (h : Inv 0 s) (hstep : s.step e = some s') : Inv 0 s' := by
  cases e with
  | AddTask p task =>
    simp only [BThreadPool.step] at hstep
    split at hstep
    · cases hstep
    · obtain rfl := Option.some.inj hstep
      exact h.addSection (Nat.zero_le 1) p task
  | wakeProducer p task =>
    obtain ⟨mTaskCondFull, hwake, rfl⟩ := Option.map_eq_some_iff.mp hstep
    obtain ⟨hasleep, hwoken⟩ := CondVar.woken_of_wake hwake
    refine ⟨h.queue, h.taken_by, h.bound, h.size, h.empty, fun hgo _ => ?_⟩
    have hfull := h.full hgo hasleep
    change s.mMaxQueueSize ≤ s.mTaskQueue.length + mTaskCondFull.woken.length + 0
    omega
  | resumeProducer p task =>
    obtain ⟨mTaskCondFull, hresume, rfl⟩ := Option.map_eq_some_iff.mp hstep
    obtain ⟨hsize, hasleep⟩ := CondVar.resume_spec hresume
    have hleft : Inv 1 { s with mTaskCondFull } := by
      refine ⟨h.queue, h.taken_by, h.bound, h.size, h.empty, fun hgo hsleep => ?_⟩
      change mTaskCondFull.asleep ≠ [] at hsleep
      change s.mMaxQueueSize ≤ s.mTaskQueue.length + mTaskCondFull.woken.length + 1
      rw [hasleep] at hsleep
      have hfull := h.full hgo hsleep
      unfold CondVar.size at hsize
      rw [hasleep] at hsize
      omega
    exact hleft.addSection (Nat.le_refl 1) p task
  | notifyEmpty p notified =>
    simp only [BThreadPool.step] at hstep
    split at hstep
    · exact h.notifyWorker hstep
    · cases hstep
  | loop w =>
    rw [BThreadPool.step] at hstep
    apply Inv.atWorker hstep
    intro hw place hplace
    split at hplace
    · obtain rfl := Option.some.inj hplace
      apply h.setWorker hw
      split
      · nofun
      · nofun
    · cases hplace
  | lock w notified =>
    rw [BThreadPool.step] at hstep
    apply Inv.atWorker hstep
    intro hw place hplace
    split at hplace
    · exact h.takeSection hw hplace
    · exact h.takeSection hw hplace
    · cases hplace
  | wakeWorker w =>
    rw [BThreadPool.step] at hstep
    apply Inv.atWorker hstep
    intro hw place hplace
    split at hplace
    · obtain rfl := Option.some.inj hplace
      exact h.setWorker hw nofun
    · cases hplace
  | finish w =>
    rw [BThreadPool.step] at hstep
    apply Inv.atWorker hstep
    intro hw place hplace
    split at hplace
    · obtain rfl := Option.some.inj hplace
      exact h.setWorker hw nofun
    · cases hplace
  | setStop =>
    simp only [BThreadPool.step] at hstep
    split at hstep
    · obtain rfl := Option.some.inj hstep
      exact ⟨h.queue, h.taken_by, h.bound, h.size, h.empty, nofun⟩
    · cases hstep
  | notifyAllFull =>
    simp only [BThreadPool.step] at hstep
    split at hstep
    · obtain rfl := Option.some.inj hstep
      exact ⟨h.queue, h.taken_by, h.bound, h.size, h.empty, fun _ hasleep => absurd rfl hasleep⟩
    · cases hstep
  | notifyAllEmpty =>
    simp only [BThreadPool.step] at hstep
    split at hstep
    · obtain rfl := Option.some.inj hstep
      refine ⟨h.queue, h.taken_by, h.bound, h.size, fun hqueue hpushed => ?_, h.full⟩
      obtain ⟨w, hw, hawake⟩ := h.empty hqueue hpushed
      refine ⟨w, hw, ?_⟩
      dsimp only
      rw [if_neg hawake]
      exact hawake
    · cases hstep

/-- **The pool.** In every state of every history of producers, workers and the stop, tasks have been
taken in the order in which they were accepted, each once at most, the queue is within its bound,
and before the stop no task and no producer is forgotten. -/
theorem always_sound (numThreads : Int32) (es : List (PoolEvent P T)) :
    Always step Sound (new numThreads) es := by
  have hallowed : EachStep step (fun _ _ => True) (new numThreads : BThreadPool P T) es := fun _ _ _ _ _ _ => trivial
  have hinv : Always step (Inv 0) (new numThreads) es := by
    apply always_of_eachStep _ (inv_new numThreads) hallowed
    intro s e s' h _ hstep
    exact h.step hstep
  exact hinv.mono fun s h => h.sound

/-- Ten producers fill the queue of one worker; the eleventh is woken when the worker takes a task,
and a new one gets the place. -/
example : ((run step (new 1 : BThreadPool Nat Nat)
    ([.loop 0, .lock 0 none] ++ (List.range 11).map (fun k => .AddTask k k) ++
      [.notifyEmpty 0 (some 0), .lock 0 (some (10, 10)), .AddTask 11 11, .resumeProducer 10 10])).map fun s =>
      (s.taken, s.mTaskQueue, s.mTaskCondFull.asleep)) =
    some ([(0, 0)], [1, 2, 3, 4, 5, 6, 7, 8, 9, 11], [(10, 10)]) := by decide +kernel

end

end BThreadPool

end Perception.Thread
