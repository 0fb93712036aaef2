import Perception.Lib.CondVar
import Perception.Lib.History

/-!
# The writer-first lock

The part of a call of `WfirstRWLock` between two points where it has `counter_mutex` is one
step. A call that finds its condition false sleeps at `cond_r` or `cond_w` and tries again
when it has been woken. The lists of the threads inside are not part of the source; they say
which releases match a lock.
-/
namespace Perception.Mutex

set_option autoImplicit false

open Perception.Lib Perception.Lib.History

structure WfirstRWLock (τ : Type) where
  read_cnt : Nat := 0
  write_cnt : Nat := 0
  inwriteflag : Bool := false
  cond_w : CondVar τ := {}
  cond_r : CondVar τ := {}
  readers : List τ := []
  writers : List τ := []
  deriving DecidableEq

inductive LockEvent (τ : Type)
  | lock_read (t : τ)
  | lock_write (t : τ)
  | release_read (t : τ) (notified : Option τ)
  | release_write (t : τ) (notified : Option τ)
  /-- A spurious wake-up. -/
  | wake_read (t : τ)
  | wake_write (t : τ)
  /-- A woken thread has the mutex and looks at its condition. -/
  | resume_read (t : τ)
  | resume_write (t : τ)

namespace WfirstRWLock

variable {τ : Type}

/-- From the condition of `lock_read` on. -/
def waitRead (s : WfirstRWLock τ) (t : τ) : WfirstRWLock τ :=
  if s.write_cnt = 0 then { s with read_cnt := s.read_cnt + 1, readers := t :: s.readers }
  else { s with cond_r := s.cond_r.wait t }

/-- From the condition of `lock_write` on. -/
def waitWrite (s : WfirstRWLock τ) (t : τ) : WfirstRWLock τ :=
  if s.read_cnt = 0 ∧ s.inwriteflag = false then { s with inwriteflag := true, writers := t :: s.writers }
  else { s with cond_w := s.cond_w.wait t }

def lock_read (s : WfirstRWLock τ) (t : τ) : WfirstRWLock τ := s.waitRead t

def lock_write (s : WfirstRWLock τ) (t : τ) : WfirstRWLock τ :=
  { s with write_cnt := s.write_cnt + 1 }.waitWrite t

section

variable [DecidableEq τ]

def release_read (s : WfirstRWLock τ) (t : τ) (notified : Option τ) : Option (WfirstRWLock τ) :=
  let s := { s with read_cnt := s.read_cnt - 1, readers := s.readers.erase t }
  if s.read_cnt = 0 ∧ 0 < s.write_cnt then
    (s.cond_w.notify_one notified).map fun cond_w => { s with cond_w }
  else some s

def release_write (s : WfirstRWLock τ) (t : τ) (notified : Option τ) : Option (WfirstRWLock τ) :=
  let s := { s with write_cnt := s.write_cnt - 1, writers := s.writers.erase t }
  if s.write_cnt = 0 then
    some { s with cond_r := s.cond_r.notify_all, inwriteflag := false }
  else
    (s.cond_w.notify_one notified).map fun cond_w => { s with cond_w, inwriteflag := false }

/-- The thread has not come back from a call. -/
def Waits (s : WfirstRWLock τ) (t : τ) : Prop := s.cond_r.At t ∨ s.cond_w.At t

instance (s : WfirstRWLock τ) (t : τ) : Decidable (s.Waits t) := by unfold Waits; infer_instance

/-- A thread that waits makes no call, and a thread releases what it holds. -/
def step (s : WfirstRWLock τ) : LockEvent τ → Option (WfirstRWLock τ)
  | .lock_read t => if s.Waits t then none else some (s.lock_read t)
  | .lock_write t => if s.Waits t then none else some (s.lock_write t)
  | .release_read t notified => if s.Waits t ∨ t ∉ s.readers then none else s.release_read t notified
  | .release_write t notified => if s.Waits t ∨ t ∉ s.writers then none else s.release_write t notified
  | .wake_read t => (s.cond_r.wake t).map fun cond_r => { s with cond_r }
  | .wake_write t => (s.cond_w.wake t).map fun cond_w => { s with cond_w }
  | .resume_read t => (s.cond_r.resume t).map fun cond_r => { s with cond_r }.waitRead t
  | .resume_write t => (s.cond_w.resume t).map fun cond_w => { s with cond_w }.waitWrite t

end

/-- One more thread reads. -/
def Enters (s s' : WfirstRWLock τ) : Prop := ∃ t, s'.readers = t :: s.readers

/-- No writer is inside together with another writer or a reader. -/
def Exclusive (s : WfirstRWLock τ) : Prop :=
  s.writers ≠ [] → s.writers.length = 1 ∧ s.readers = []

/-- A writer is inside or waiting. -/
def WriterPresent (s : WfirstRWLock τ) : Prop :=
  s.writers ≠ [] ∨ s.cond_w.asleep ≠ [] ∨ s.cond_w.woken ≠ []

/-- Threads sleep while nobody holds the lock and no notified thread is on its way. -/
def Lost (s : WfirstRWLock τ) : Prop :=
  (s.cond_r.asleep ≠ [] ∨ s.cond_w.asleep ≠ []) ∧ s.readers = [] ∧ s.writers = [] ∧
    s.cond_r.woken = [] ∧ s.cond_w.woken = []

/-- The counters in terms of the threads; `entering` writers are counted and neither inside
nor at `cond_w`. -/
structure Inv (entering : Nat) (s : WfirstRWLock τ) : Prop where
  read_cnt : s.read_cnt = s.readers.length
  write_cnt : s.write_cnt = s.writers.length + s.cond_w.size + entering
  inwriteflag : s.inwriteflag = true ↔ s.writers ≠ []
  exclusive : s.Exclusive
  /-- Readers sleep for a writer. -/
  asleep_r : s.cond_r.asleep ≠ [] → 0 < s.write_cnt
  /-- Writers sleep for a thread that is inside or for one of them that is on its way. -/
  asleep_w : entering = 0 → s.readers = [] → s.writers = [] → s.cond_w.asleep ≠ [] → s.cond_w.woken ≠ []

variable {s s' : WfirstRWLock τ} {t : τ}

theorem Inv.init : Inv 0 ({} : WfirstRWLock τ) where
  read_cnt := rfl
  write_cnt := rfl
  inwriteflag := by simp
  exclusive := fun h => absurd rfl h
  asleep_r := fun h => absurd rfl h
  asleep_w := fun _ _ _ h => absurd rfl h

theorem Inv.writers_eq_nil (h : Inv 0 s) (hcnt : s.write_cnt = 0) : ¬ s.WriterPresent := by
  have hsum := h.write_cnt
  have hsize : s.cond_w.size = 0 := by omega
  have hlen : s.writers.length = 0 := by omega
  obtain ⟨hasleep, hwoken⟩ := CondVar.size_eq_zero.mp hsize
  rw [WriterPresent, hasleep, hwoken, List.length_eq_zero_iff.mp hlen]
  simp

theorem Inv.waitRead (h : Inv 0 s) (t : τ) : Inv 0 (s.waitRead t) := by
  unfold WfirstRWLock.waitRead
  split
  · next hcnt =>
    have hnone := h.writers_eq_nil hcnt
    rw [WriterPresent] at hnone
    push Not at hnone
    constructor
    · simp [h.read_cnt]
    · exact h.write_cnt
    · exact h.inwriteflag
    · exact fun hne => absurd hnone.1 hne
    · exact h.asleep_r
    · exact fun _ hnil => absurd hnil (List.cons_ne_nil _ _)
  · next hcnt =>
    constructor
    · exact h.read_cnt
    · exact h.write_cnt
    · exact h.inwriteflag
    · exact h.exclusive
    · exact fun _ => Nat.pos_of_ne_zero hcnt
    · exact h.asleep_w

theorem Inv.waitWrite (h : Inv 1 s) (t : τ) : Inv 0 (s.waitWrite t) := by
  have hsum := h.write_cnt
  unfold WfirstRWLock.waitWrite
  split
  · next hpred =>
    have hreaders : s.readers = [] := by
      apply List.length_eq_zero_iff.mp
      rw [← h.read_cnt]
      exact hpred.1
    have hwriters : s.writers = [] := by
      by_contra hne
      rw [h.inwriteflag.mpr hne] at hpred
      exact Bool.noConfusion hpred.2
    constructor
    · exact h.read_cnt
    · simp only [List.length_cons]
      omega
    · simp
    · intro _
      simp only [hwriters, hreaders, List.length_cons, List.length_nil, Nat.zero_add, and_self]
    · exact h.asleep_r
    · exact fun _ _ hnil => absurd hnil (List.cons_ne_nil _ _)
  · next hpred =>
    constructor
    · exact h.read_cnt
    · simp only [CondVar.size_wait]
      omega
    · exact h.inwriteflag
    · exact h.exclusive
    · exact h.asleep_r
    · intro _ hreaders hwriters
      -- with nobody inside the condition would have been true
      refine absurd ⟨?_, ?_⟩ hpred
      · rw [h.read_cnt, hreaders]
        rfl
      · rw [← Bool.not_eq_true, h.inwriteflag, hwriters]
        exact fun hne => hne rfl

theorem Inv.lock_write (h : Inv 0 s) (t : τ) : Inv 0 (s.lock_write t) := by
  apply Inv.waitWrite
  constructor
  · exact h.read_cnt
  · simp only [h.write_cnt]
  · exact h.inwriteflag
  · exact h.exclusive
  · exact fun _ => Nat.succ_pos _
  · exact fun hone => nomatch hone

/-- Fewer readers are asleep. -/
theorem Inv.of_cond_r {cond_r : CondVar τ} (h : Inv 0 s) (hsub : s.cond_r.asleep = [] → cond_r.asleep = []) :
    Inv 0 { s with cond_r } := by
  constructor
  · exact h.read_cnt
  · exact h.write_cnt
  · exact h.inwriteflag
  · exact h.exclusive
  · exact fun hne => h.asleep_r fun hnil => hne (hsub hnil)
  · exact h.asleep_w

/-- With nobody inside, threads sleep only behind a writer that has been woken. -/
theorem Inv.woken_of_asleep (h : Inv 0 s) (hreaders : s.readers = []) (hwriters : s.writers = [])
    (hasleep : s.cond_r.asleep ≠ [] ∨ s.cond_w.asleep ≠ []) : s.cond_w.woken ≠ [] := by
  intro hwoken
  have hw : s.cond_w.asleep = [] := by
    by_contra hne
    exact h.asleep_w rfl hreaders hwriters hne hwoken
  have hr : s.cond_r.asleep ≠ [] := hasleep.resolve_right fun hne => hne hw
  have hcnt := h.write_cnt
  have hpos := h.asleep_r hr
  rw [hwriters, CondVar.size_eq_zero.mpr ⟨hw, hwoken⟩] at hcnt
  exact Nat.ne_of_gt hpos hcnt

theorem waitRead_enters (h : (s.waitRead t).readers ≠ s.readers) : s.write_cnt = 0 := by
  by_contra hne
  apply h
  unfold waitRead
  rw [if_neg hne]

theorem readers_waitWrite : (s.waitWrite t).readers = s.readers := by
  unfold waitWrite
  split
  · rfl
  · rfl

theorem Enters.ne (h : s.Enters s') : s'.readers ≠ s.readers := by
  obtain ⟨t, ht⟩ := h
  rw [ht]
  exact List.cons_ne_self t s.readers

variable [DecidableEq τ] {notified : Option τ} {e : LockEvent τ}

theorem Inv.resume_write {cond_w : CondVar τ} (h : Inv 0 s) (hres : s.cond_w.resume t = some cond_w) :
    Inv 0 ({ s with cond_w }.waitWrite t) := by
  obtain ⟨hsize, -⟩ := CondVar.resume_spec hres
  have hsum := h.write_cnt
  apply Inv.waitWrite
  constructor
  · exact h.read_cnt
  · simp only
    omega
  · exact h.inwriteflag
  · exact h.exclusive
  · exact h.asleep_r
  · exact fun hone => nomatch hone

theorem Inv.wake_write {cond_w : CondVar τ} (h : Inv 0 s) (hwake : s.cond_w.wake t = some cond_w) :
    Inv 0 { s with cond_w } := by
  obtain ⟨hsize, hwoken⟩ := CondVar.wake_spec hwake
  constructor
  · exact h.read_cnt
  · rw [h.write_cnt, hsize]
  · exact h.inwriteflag
  · exact h.exclusive
  · exact h.asleep_r
  · exact fun _ _ _ _ => hwoken

theorem Inv.release_read (h : Inv 0 s) (ht : t ∈ s.readers) (hrel : s.release_read t notified = some s') : Inv 0 s' := by
  have hlen : s.read_cnt - 1 = (s.readers.erase t).length := by
    rw [h.read_cnt, List.length_erase_of_mem ht]
  have hwriters : s.writers = [] := by
    by_contra hne
    rw [(h.exclusive hne).2] at ht
    exact List.not_mem_nil ht
  have hsum := h.write_cnt
  unfold WfirstRWLock.release_read at hrel
  simp only at hrel
  split at hrel
  · obtain ⟨cond_w, hnot, rfl⟩ := Option.map_eq_some_iff.mp hrel
    obtain ⟨hsize, hwoken⟩ := CondVar.notify_one_spec hnot
    constructor
    · exact hlen
    · rw [hsize]
      exact hsum
    · exact h.inwriteflag
    · exact fun hne => absurd hwriters hne
    · exact h.asleep_r
    · exact fun _ _ _ => hwoken
  · next hlast =>
    obtain rfl := Option.some.inj hrel
    constructor
    · exact hlen
    · exact hsum
    · exact h.inwriteflag
    · exact fun hne => absurd hwriters hne
    · exact h.asleep_r
    · intro _ hreaders _ hasleep
      -- the last reader leaves without a call of `notify_one` when no writer is counted
      have hzero : s.write_cnt = 0 := by
        by_contra hne
        apply hlast
        exact ⟨hlen.trans (List.length_eq_zero_iff.mpr hreaders), Nat.pos_of_ne_zero hne⟩
      exact absurd (.inr (.inl hasleep)) (h.writers_eq_nil hzero)

theorem Inv.release_write (h : Inv 0 s) (ht : t ∈ s.writers) (hrel : s.release_write t notified = some s') : Inv 0 s' := by
  obtain ⟨hone, hreaders⟩ := h.exclusive (List.ne_nil_of_mem ht)
  have hlen : (s.writers.erase t).length = 0 := by
    rw [List.length_erase_of_mem ht, hone]
  have hwriters : s.writers.erase t = [] := List.length_eq_zero_iff.mp hlen
  have hsum := h.write_cnt
  unfold WfirstRWLock.release_write at hrel
  simp only at hrel
  split at hrel
  · next hzero =>
    obtain rfl := Option.some.inj hrel
    constructor
    · exact h.read_cnt
    · simp only [hlen]
      omega
    · simp [hwriters]
    · exact fun hne => absurd hwriters hne
    · exact fun hne => absurd CondVar.asleep_notify_all hne
    · intro _ _ _ hasleep
      have hsize : s.cond_w.size = 0 := by omega
      exact absurd (CondVar.size_eq_zero.mp hsize).1 hasleep
  · next hpos =>
    obtain ⟨cond_w, hnot, rfl⟩ := Option.map_eq_some_iff.mp hrel
    obtain ⟨hsize, hwoken⟩ := CondVar.notify_one_spec hnot
    constructor
    · exact h.read_cnt
    · simp only [hlen, hsize]
      omega
    · simp [hwriters]
    · exact fun hne => absurd hwriters hne
    · exact fun _ => Nat.pos_of_ne_zero hpos
    · exact fun _ _ _ => hwoken

theorem Inv.step (h : Inv 0 s) (hstep : s.step e = some s') : Inv 0 s' := by
  cases e with
  | lock_read t =>
    obtain ⟨-, hstep⟩ := Option.ite_none_left_eq_some.mp hstep
    obtain rfl := Option.some.inj hstep
    exact h.waitRead t
  | lock_write t =>
    obtain ⟨-, hstep⟩ := Option.ite_none_left_eq_some.mp hstep
    obtain rfl := Option.some.inj hstep
    exact h.lock_write t
  | release_read t notified =>
    obtain ⟨hcan, hrel⟩ := Option.ite_none_left_eq_some.mp hstep
    exact h.release_read (by_contra fun hnot => hcan (.inr hnot)) hrel
  | release_write t notified =>
    obtain ⟨hcan, hrel⟩ := Option.ite_none_left_eq_some.mp hstep
    exact h.release_write (by_contra fun hnot => hcan (.inr hnot)) hrel
  | wake_read t =>
    obtain ⟨cond_r, hwake, rfl⟩ := Option.map_eq_some_iff.mp hstep
    exact h.of_cond_r (CondVar.asleep_of_wake hwake)
  | wake_write t =>
    obtain ⟨cond_w, hwake, rfl⟩ := Option.map_eq_some_iff.mp hstep
    exact h.wake_write hwake
  | resume_read t =>
    obtain ⟨cond_r, hres, rfl⟩ := Option.map_eq_some_iff.mp hstep
    have hasleep := (CondVar.resume_spec hres).2
    have hr : Inv 0 { s with cond_r } := h.of_cond_r fun hnil => hasleep.trans hnil
    exact hr.waitRead t
  | resume_write t =>
    obtain ⟨cond_w, hres, rfl⟩ := Option.map_eq_some_iff.mp hstep
    exact h.resume_write hres

theorem readers_release_read (hrel : s.release_read t notified = some s') : s'.readers = s.readers.erase t := by
  unfold release_read at hrel
  simp only at hrel
  split at hrel
  · obtain ⟨cond_w, -, rfl⟩ := Option.map_eq_some_iff.mp hrel
    rfl
  · obtain rfl := Option.some.inj hrel
    rfl

theorem readers_release_write (hrel : s.release_write t notified = some s') : s'.readers = s.readers := by
  unfold release_write at hrel
  simp only at hrel
  split at hrel
  · obtain rfl := Option.some.inj hrel
    rfl
  · obtain ⟨cond_w, -, rfl⟩ := Option.map_eq_some_iff.mp hrel
    rfl

/-- A thread starts to read only while no writer is counted. -/
theorem write_cnt_of_enters (hstep : s.step e = some s') (hin : s.Enters s') : s.write_cnt = 0 := by
  cases e with
  | lock_read t =>
    obtain ⟨-, hstep⟩ := Option.ite_none_left_eq_some.mp hstep
    obtain rfl := Option.some.inj hstep
    exact waitRead_enters hin.ne
  | lock_write t =>
    obtain ⟨-, hstep⟩ := Option.ite_none_left_eq_some.mp hstep
    obtain rfl := Option.some.inj hstep
    exact absurd readers_waitWrite hin.ne
  | release_read t notified =>
    obtain ⟨-, hrel⟩ := Option.ite_none_left_eq_some.mp hstep
    obtain ⟨u, hu⟩ := hin
    rw [readers_release_read hrel] at hu
    have hle := List.length_erase_le (a := t) (l := s.readers)
    rw [hu, List.length_cons] at hle
    omega
  | release_write t notified =>
    obtain ⟨-, hrel⟩ := Option.ite_none_left_eq_some.mp hstep
    exact absurd (readers_release_write hrel) hin.ne
  | wake_read t =>
    obtain ⟨cond_r, -, rfl⟩ := Option.map_eq_some_iff.mp hstep
    exact absurd rfl hin.ne
  | wake_write t =>
    obtain ⟨cond_w, -, rfl⟩ := Option.map_eq_some_iff.mp hstep
    exact absurd rfl hin.ne
  | resume_read t =>
    obtain ⟨cond_r, -, rfl⟩ := Option.map_eq_some_iff.mp hstep
    exact waitRead_enters (s := { s with cond_r }) hin.ne
  | resume_write t =>
    obtain ⟨cond_w, -, rfl⟩ := Option.map_eq_some_iff.mp hstep
    exact absurd readers_waitWrite hin.ne

theorem always_inv (es : List (LockEvent τ)) : Always step (Inv 0) ({} : WfirstRWLock τ) es := by
  have hall : EachStep step (fun _ _ => True) ({} : WfirstRWLock τ) es := fun _ _ _ _ _ _ => trivial
  exact always_of_eachStep (fun s e s' h _ hstep => h.step hstep) Inv.init hall

/-- With nobody inside, a woken writer is on its way to the lock. -/
theorem Inv.writer_gets_in (h : Inv 0 s) (hreaders : s.readers = []) (hwriters : s.writers = [])
    (hasleep : s.cond_r.asleep ≠ [] ∨ s.cond_w.asleep ≠ []) :
    ∃ t s', s.step (.resume_write t) = some s' ∧ s'.writers = [t] := by
  obtain ⟨t, ht⟩ := List.exists_mem_of_ne_nil _ (h.woken_of_asleep hreaders hwriters hasleep)
  have hcan : s.read_cnt = 0 ∧ s.inwriteflag = false := by
    rw [h.read_cnt, hreaders, ← Bool.not_eq_true, h.inwriteflag, hwriters]
    exact ⟨rfl, fun hne => hne rfl⟩
  refine ⟨t, _, by rw [WfirstRWLock.step, CondVar.resume, if_pos ht, Option.map_some], ?_⟩
  rw [WfirstRWLock.waitWrite, if_pos hcan, hwriters]

/-- What the lock promises in a state and for the next step from it. -/
structure WriterFirst (s : WfirstRWLock τ) : Prop where
  exclusive : s.Exclusive
  no_entry : ∀ e s', s.step e = some s' → s.Enters s' → ¬ s.WriterPresent
  not_lost : ¬ s.Lost

/-- Whatever the threads do, writers exclude everybody, a reader never passes a writer, and
no wake-up is lost. -/
theorem always_writerFirst (es : List (LockEvent τ)) : Always step WriterFirst ({} : WfirstRWLock τ) es := by
  refine (always_inv es).mono fun s h => ?_
  constructor
  · exact h.exclusive
  · intro e s' hstep hin
    exact h.writers_eq_nil (write_cnt_of_enters hstep hin)
  · intro hlost
    obtain ⟨hasleep, hreaders, hwriters, -, hwoken⟩ := hlost
    exact h.woken_of_asleep hreaders hwriters hasleep hwoken

example : (run step ({} : WfirstRWLock Nat) [.lock_read 0, .lock_write 1, .lock_read 2, .release_read 0 (some 1),
    .resume_write 1, .release_write 1 none, .resume_read 2]).map readers = some [2] := by decide

end WfirstRWLock

end Perception.Mutex
