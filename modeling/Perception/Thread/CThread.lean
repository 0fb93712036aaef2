import Mathlib.Data.List.Chain
import Perception.Lib.History

/-!
# The cyclic thread

`ThreadLoop` of `CThread` calls `m_Cb` whenever its timed wait ends without a signal; the destructor signals and
joins it. Both are cut into steps where `i_mutex` is taken or given up, and the clock goes on between them.
-/
namespace Perception.Thread

set_option autoImplicit false

open Perception.Lib.History

structure timespec where
  tv_sec : Int
  tv_nsec : Int
  deriving DecidableEq

namespace timespec

/-- A time that `pthread_cond_timedwait` takes. For another one it answers `EINVAL`. -/
def Valid (tv : timespec) : Prop := 0 ≤ tv.tv_nsec ∧ tv.tv_nsec < 1000000000

instance (tv : timespec) : Decidable tv.Valid := by unfold Valid; infer_instance

def nanoseconds (tv : timespec) : Int := tv.tv_sec * 1000000000 + tv.tv_nsec

end timespec

/-- The clock counts nanoseconds. -/
def clock_gettime (now : Nat) : timespec := ⟨now / 1000000000, now % 1000000000⟩

structure Cycle where
  s32SecCycle : Int
  s32mSecCycle : Int
  /-- The product in `GetTv` is an `int`. -/
  int_product : -2147483648 ≤ s32mSecCycle * 1000 * 1000 ∧ s32mSecCycle * 1000 * 1000 ≤ 2147483647

namespace Cycle

def GetTv (c : Cycle) (now : Nat) : timespec :=
  let tv := clock_gettime now
  ⟨tv.tv_sec + c.s32SecCycle, tv.tv_nsec + c.s32mSecCycle * 1000 * 1000⟩

def nanoseconds (c : Cycle) : Int := c.s32SecCycle * 1000000000 + c.s32mSecCycle * 1000000

theorem nanoseconds_GetTv (c : Cycle) (now : Nat) : (c.GetTv now).nanoseconds = now + c.nanoseconds := by
  simp only [GetTv, clock_gettime, timespec.nanoseconds, nanoseconds]
  omega

/-- The nanoseconds are not carried into the seconds. -/
theorem valid_GetTv {c : Cycle} {now : Nat} :
    (c.GetTv now).Valid ↔ 0 ≤ (now : Int) % 1000000000 + c.s32mSecCycle * 1000000 ∧
      (now : Int) % 1000000000 + c.s32mSecCycle * 1000000 < 1000000000 := by
  simp only [timespec.Valid, GetTv, clock_gettime]
  omega

end Cycle

/-- Where the thread is in `ThreadLoop`. -/
inductive Place
  /-- In front of `GetTv`. -/
  | starting
  | locking (tv : timespec)
  | waiting (tv : timespec)
  /-- Woken at `i_cv`, without the mutex yet. -/
  | signaled
  | timedOut
  /-- In `m_Cb`. -/
  | calling
  | ended
  deriving DecidableEq

/-- How far the owner is in the destructor. -/
inductive Owner
  | before
  | locked
  | signaled
  | joining
  | joined
  deriving DecidableEq

inductive Party
  | thread
  | owner
  deriving DecidableEq

structure CThread where
  now : Nat
  place : Place := .starting
  owner : Owner := .before
  i_mutex : Option Party := none
  /-- When `m_Cb` was called, the last call first. -/
  calls : List Nat := []

inductive ThreadEvent
  | tick
  | getTv
  | lock
  | timeOut
  /-- A wake-up without a signal. -/
  | spurious
  /-- The wait ends with the mutex. -/
  | relock
  /-- `m_Cb` returns, and the mutex is given up. -/
  | finish
  | ownerLock
  | signal
  | ownerUnlock
  | join
  deriving DecidableEq

/-- How a pull-stream object calls its loop. -/
def fiveMilliseconds : Cycle := ⟨0, 5, by decide⟩

namespace CThread

def new (now : Nat) : CThread := { now }

def call (s : CThread) : CThread :=
  { s with place := .calling, i_mutex := some .thread, calls := s.now :: s.calls }

/-- `pthread_cond_timedwait` with the mutex, which it keeps if it does not take the time. -/
def timedwait (s : CThread) (tv : timespec) : CThread := if tv.Valid then { s with place := .waiting tv } else s.call

/-- `pthread_cond_signal`. -/
def wake (s : CThread) : CThread :=
  match s.place with
  | .waiting _ => { s with place := .signaled }
  | _ => s

def step (c : Cycle) (s : CThread) : ThreadEvent → Option CThread
  | .tick => some { s with now := s.now + 1 }
  | .getTv =>
    match s.place with
    | .starting => some { s with place := .locking (c.GetTv s.now) }
    | _ => none
  | .lock =>
    match s.place with
    | .locking tv => if s.i_mutex = none then some (s.timedwait tv) else none
    | _ => none
  | .timeOut =>
    match s.place with
    | .waiting tv => if tv.nanoseconds ≤ s.now then some { s with place := .timedOut } else none
    | _ => none
  | .spurious =>
    match s.place with
    | .waiting _ => some { s with place := .signaled }
    | _ => none
  | .relock =>
    if s.i_mutex = none then
      match s.place with
      | .signaled => some { s with place := .ended, i_mutex := some .thread }
      | .timedOut => some s.call
      | _ => none
    else none
  | .finish =>
    match s.place with
    | .calling => some { s with place := .starting, i_mutex := none }
    | _ => none
  | .ownerLock =>
    if s.owner = .before ∧ s.i_mutex = none then some { s with owner := .locked, i_mutex := some .owner } else none
  | .signal => if s.owner = .locked then some { s.wake with owner := .signaled } else none
  | .ownerUnlock => if s.owner = .signaled then some { s with owner := .joining, i_mutex := none } else none
  | .join => if s.owner = .joining ∧ s.place = .ended then some { s with owner := .joined } else none

/-- The thread is on its way to its end, or there. -/
def Leaving (s : CThread) : Prop := s.place = .signaled ∨ s.place = .ended

def Waiting (s : CThread) : Prop := ∃ tv, s.place = .waiting tv

/-- Behind the signal of the destructor. -/
def Past (s : CThread) : Prop := s.owner = .signaled ∨ s.owner = .joining ∨ s.owner = .joined

/-- What one step can do. -/
inductive Step (c : Cycle) (s : CThread) : ThreadEvent → CThread → Prop
  | tick : Step c s .tick { s with now := s.now + 1 }
  | getTv (hplace : s.place = .starting) : Step c s .getTv { s with place := .locking (c.GetTv s.now) }
  | wait (tv : timespec) (hplace : s.place = .locking tv) (hfree : s.i_mutex = none) (hvalid : tv.Valid) :
    Step c s .lock { s with place := .waiting tv }
  | refused (tv : timespec) (hplace : s.place = .locking tv) (hfree : s.i_mutex = none) (hvalid : ¬tv.Valid) :
    Step c s .lock s.call
  | timeOut (tv : timespec) (hplace : s.place = .waiting tv) (htime : tv.nanoseconds ≤ s.now) :
    Step c s .timeOut { s with place := .timedOut }
  | spurious (tv : timespec) (hplace : s.place = .waiting tv) : Step c s .spurious { s with place := .signaled }
  | leave (hplace : s.place = .signaled) (hfree : s.i_mutex = none) :
    Step c s .relock { s with place := .ended, i_mutex := some .thread }
  | call (hplace : s.place = .timedOut) (hfree : s.i_mutex = none) : Step c s .relock s.call
  | finish (hplace : s.place = .calling) : Step c s .finish { s with place := .starting, i_mutex := none }
  | ownerLock (howner : s.owner = .before) (hfree : s.i_mutex = none) :
    Step c s .ownerLock { s with owner := .locked, i_mutex := some .owner }
  | wake (tv : timespec) (howner : s.owner = .locked) (hplace : s.place = .waiting tv) :
    Step c s .signal { s with owner := .signaled, place := .signaled }
  | lost (howner : s.owner = .locked) (hplace : ¬s.Waiting) : Step c s .signal { s with owner := .signaled }
  | ownerUnlock (howner : s.owner = .signaled) : Step c s .ownerUnlock { s with owner := .joining, i_mutex := none }
  | join (howner : s.owner = .joining) (hplace : s.place = .ended) : Step c s .join { s with owner := .joined }

variable {c : Cycle} {s s' : CThread} {e : ThreadEvent} {es : List ThreadEvent}

theorem timedwait_of_valid {tv : timespec} (h : tv.Valid) : s.timedwait tv = { s with place := .waiting tv } := if_pos h

theorem timedwait_of_not_valid {tv : timespec} (h : ¬tv.Valid) : s.timedwait tv = s.call := if_neg h

theorem wake_of_waiting {tv : timespec} (h : s.place = .waiting tv) : s.wake = { s with place := .signaled } := by
  unfold wake
  rw [h]

theorem wake_of_not_waiting (h : ¬s.Waiting) : s.wake = s := by
  unfold wake
  split
  · next tv hplace => exact absurd ⟨tv, hplace⟩ h
  · rfl

theorem step_cases (h : step c s e = some s') : Step c s e s' := by
  cases e with
  | tick =>
    cases h
    exact .tick
  | getTv =>
    simp only [step] at h
    split at h
    · next hplace =>
      cases h
      exact .getTv hplace
    · cases h
  | lock =>
    simp only [step] at h
    split at h
    · next tv hplace =>
      split at h
      · next hfree =>
        cases h
        by_cases hvalid : tv.Valid
        · rw [timedwait_of_valid hvalid]
          exact .wait tv hplace hfree hvalid
        · rw [timedwait_of_not_valid hvalid]
          exact .refused tv hplace hfree hvalid
      · cases h
    · cases h
  | timeOut =>
    simp only [step] at h
    split at h
    · next tv hplace =>
      split at h
      · next htime =>
        cases h
        exact .timeOut tv hplace htime
      · cases h
    · cases h
  | spurious =>
    simp only [step] at h
    split at h
    · next tv hplace =>
      cases h
      exact .spurious tv hplace
    · cases h
  | relock =>
    simp only [step] at h
    split at h
    · next hfree =>
      split at h
      · next hplace =>
        cases h
        exact .leave hplace hfree
      · next hplace =>
        cases h
        exact .call hplace hfree
      · cases h
    · cases h
  | finish =>
    simp only [step] at h
    split at h
    · next hplace =>
      cases h
      exact .finish hplace
    · cases h
  | ownerLock =>
    simp only [step] at h
    split at h
    · next hfree =>
      cases h
      exact .ownerLock hfree.1 hfree.2
    · cases h
  | signal =>
    simp only [step] at h
    split at h
    · next howner =>
      cases h
      by_cases hplace : s.Waiting
      · obtain ⟨tv, hplace⟩ := hplace
        rw [wake_of_waiting hplace]
        exact .wake tv howner hplace
      · rw [wake_of_not_waiting hplace]
        exact .lost howner hplace
    · cases h
  | ownerUnlock =>
    simp only [step] at h
    split at h
    · next howner =>
      cases h
      exact .ownerUnlock howner
    · cases h
  | join =>
    simp only [step] at h
    split at h
    · next howner =>
      cases h
      exact .join howner.1 howner.2
    · cases h

theorem Step.eq_some (h : Step c s e s') : step c s e = some s' := by
  cases h with
  | tick => rfl
  | getTv hplace => simp only [step, hplace]
  | wait tv hplace hfree hvalid => simp only [step, hplace, hfree, if_true, timedwait_of_valid hvalid]
  | refused tv hplace hfree hvalid => simp only [step, hplace, hfree, if_true, timedwait_of_not_valid hvalid]
  | timeOut tv hplace htime => simp only [step, hplace, htime, if_true]
  | spurious tv hplace => simp only [step, hplace]
  | leave hplace hfree => simp only [step, hplace, hfree, if_true]
  | call hplace hfree => simp only [step, hplace, hfree, if_true]
  | finish hplace => simp only [step, hplace]
  | ownerLock howner hfree => simp only [step, howner, hfree, and_self, if_true]
  | wake tv howner hplace => simp only [step, howner, if_true, wake_of_waiting hplace]
  | lost howner hplace => simp only [step, howner, if_true, wake_of_not_waiting hplace]
  | ownerUnlock howner => simp only [step, howner, if_true]
  | join howner hplace => simp only [step, howner, hplace, and_self, if_true]

/-- The mutex is with the thread in a call and when it has ended, and with the owner from its lock to its unlock. -/
structure Inv (s : CThread) : Prop where
  thread : s.i_mutex = some .thread ↔ s.place = .calling ∨ s.place = .ended
  owner : s.i_mutex = some .owner ↔ s.owner = .locked ∨ s.owner = .signaled
  joined : s.owner = .joined → s.place = .ended

theorem inv_new (now : Nat) : (new now).Inv where
  thread := by simp [new]
  owner := by simp [new]
  joined := nofun

theorem Inv.step (h : s.Inv) (hstep : step c s e = some s') : s'.Inv := by
  obtain ⟨hthread, howner', hjoined⟩ := h
  cases step_cases hstep with
  | tick => exact ⟨hthread, howner', hjoined⟩
  | getTv hplace => constructor <;> simp_all
  | wait tv hplace hfree hvalid => constructor <;> simp_all
  | refused tv hplace hfree hvalid => constructor <;> simp_all [CThread.call]
  | timeOut tv hplace htime => constructor <;> simp_all
  | spurious tv hplace => constructor <;> simp_all
  | leave hplace hfree => constructor <;> simp_all
  | call hplace hfree => constructor <;> simp_all [CThread.call]
  | finish hplace => constructor <;> simp_all
  | ownerLock howner hfree => constructor <;> simp_all
  | wake tv howner hplace => constructor <;> simp_all
  | lost howner hplace => constructor <;> simp_all
  | ownerUnlock howner => constructor <;> simp_all
  | join howner hplace => constructor <;> simp_all

theorem Inv.leads (h : s.Inv) {C : ThreadEvent → Prop} (hleads : Leads (CThread.step c) C s s') : s'.Inv :=
  hleads.keeps h fun _ _ _ hs _ hstep => hs.step hstep

/-- Behind the signal and before the end of the destructor the mutex is free while nobody calls. -/
theorem Inv.free (h : s.Inv) (howner : s.owner = .joining) (hcalling : s.place ≠ .calling) (hended : s.place ≠ .ended) :
    s.i_mutex = none := by
  cases hm : s.i_mutex with
  | none => rfl
  | some p =>
    cases p with
    | thread => exact absurd (h.thread.mp hm) (not_or.mpr ⟨hcalling, hended⟩)
    | owner =>
      have hlocked := h.owner.mp hm
      rw [howner] at hlocked
      exact absurd hlocked (by decide)

/-- Behind the signal only a thread that it woke leaves. -/
theorem leaving_step (hpast : s.Past) (hquiet : e ≠ .spurious) (hstep : step c s e = some s') :
    s'.Past ∧ (s'.Leaving ↔ s.Leaving) := by
  unfold Past Leaving at *
  cases step_cases hstep with
  | spurious tv hplace => exact absurd rfl hquiet
  | tick => exact ⟨hpast, Iff.rfl⟩
  | getTv hplace => simp [hpast, hplace]
  | wait tv hplace hfree hvalid => simp [hpast, hplace]
  | refused tv hplace hfree hvalid => simp [CThread.call, hpast, hplace]
  | timeOut tv hplace htime => simp [hpast, hplace]
  | leave hplace hfree => simp [hpast, hplace]
  | call hplace hfree => simp [CThread.call, hpast, hplace]
  | finish hplace => simp [hpast, hplace]
  | ownerLock howner hfree => simp [howner] at hpast
  | wake tv howner hplace => simp [howner] at hpast
  | lost howner hplace => simp [howner] at hpast
  | ownerUnlock howner => simp
  | join howner hplace => simp

/-- Before the signal no thread leaves. -/
theorem not_leaving_step (hleaving : ¬s.Leaving) (hquiet : e ≠ .spurious)
    (hstep : step c s e = some s') : s'.Past ∨ ¬s'.Leaving := by
  unfold Past Leaving at *
  cases step_cases hstep with
  | spurious tv hplace => exact absurd rfl hquiet
  | tick => exact .inr hleaving
  | getTv hplace => simp
  | wait tv hplace hfree hvalid => simp
  | refused tv hplace hfree hvalid => simp [CThread.call]
  | timeOut tv hplace htime => simp
  | leave hplace hfree => exact absurd (.inl hplace) hleaving
  | call hplace hfree => simp [CThread.call]
  | finish hplace => simp
  | ownerLock howner hfree => exact .inr hleaving
  | wake tv howner hplace => simp
  | lost howner hplace => simp
  | ownerUnlock howner => simp
  | join howner hplace => simp

/-- A step that is no wake-up without a signal. -/
def Quiet (e : ThreadEvent) : Prop := e ≠ .spurious

instance : DecidablePred Quiet := fun e => inferInstanceAs (Decidable (e ≠ .spurious))

theorem leaving_leads (hpast : s.Past) (h : Leads (step c) Quiet s s') : s'.Past ∧ (s'.Leaving ↔ s.Leaving) := by
  apply h.keeps (I := fun s' => s'.Past ∧ (s'.Leaving ↔ s.Leaving)) ⟨hpast, Iff.rfl⟩
  intro s₁ e s₂ h₁ hquiet hstep
  obtain ⟨hpast₂, hleaving⟩ := leaving_step h₁.1 hquiet hstep
  exact ⟨hpast₂, hleaving.trans h₁.2⟩

theorem not_leaving_leads (hleaving : ¬s.Leaving) (h : Leads (step c) Quiet s s') : s'.Past ∨ ¬s'.Leaving := by
  apply h.keeps (I := fun s' => s'.Past ∨ ¬s'.Leaving) (.inr hleaving)
  intro s₁ e s₂ h₁ hquiet hstep
  cases h₁ with
  | inl hpast => exact .inl (leaving_step hpast hquiet hstep).1
  | inr hleaving => exact not_leaving_step hleaving hquiet hstep

theorem Step.leads (h : Step c s e s') (hquiet : Quiet e) : Leads (step c) Quiet s s' :=
  leads_of_step hquiet h.eq_some

theorem exists_joined_of_joining (hinv : s.Inv) (howner : s.owner = .joining) (hleaving : s.Leaving) :
    ∃ s', Leads (step c) Quiet s s' ∧ s'.owner = .joined := by
  cases hleaving with
  | inl hplace =>
    have hfree : s.i_mutex = none := by
      apply hinv.free howner
      · rw [hplace]
        nofun
      · rw [hplace]
        nofun
    have hleave : Step c s .relock { s with place := .ended, i_mutex := some .thread } := .leave hplace hfree
    have hjoin := Step.join (c := c) (s := { s with place := .ended, i_mutex := some .thread }) howner rfl
    exact ⟨_, (hleave.leads nofun).trans (hjoin.leads nofun), rfl⟩
  | inr hplace => exact ⟨_, (Step.join howner hplace).leads nofun, rfl⟩

/-- A thread that leaves is joined. -/
theorem exists_joined (hinv : s.Inv) (hpast : s.Past) (hleaving : s.Leaving) :
    ∃ s', Leads (step c) Quiet s s' ∧ s'.owner = .joined := by
  obtain howner | howner | howner := hpast
  · have hunlock : Step c s .ownerUnlock { s with owner := .joining, i_mutex := none } := .ownerUnlock howner
    obtain ⟨s', hleads, hjoined⟩ := exists_joined_of_joining (c := c) (hinv.step hunlock.eq_some) rfl hleaving
    exact ⟨s', (hunlock.leads nofun).trans hleads, hjoined⟩
  · exact exists_joined_of_joining hinv howner hleaving
  · exact ⟨s, .refl, howner⟩

theorem leads_ticks (n : Nat) : Leads (step c) Quiet s { s with now := s.now + n } := by
  induction n with
  | zero => exact .refl
  | succ n ih => exact ih.trans (leads_of_step (e := .tick) nofun rfl)

/-- The owner joins, and one more call of the thread has begun. -/
structure CallsOnce (c : Cycle) (s s' : CThread) : Prop where
  leads : Leads (step c) Quiet s s'
  owner : s'.owner = s.owner
  place : s'.place = .calling
  calls : s'.calls.length = s.calls.length + 1

theorem CallsOnce.of_leads {s₁ : CThread} (hleads : Leads (step c) Quiet s s₁) (howner : s₁.owner = s.owner)
    (hcalls : s₁.calls = s.calls) (h : CallsOnce c s₁ s') : CallsOnce c s s' where
  leads := hleads.trans h.leads
  owner := h.owner.trans howner
  place := h.place
  calls := by rw [h.calls, hcalls]

theorem callsOnce_of_waiting {tv : timespec} (hplace : s.place = .waiting tv) (hfree : s.i_mutex = none) :
    ∃ s', CallsOnce c s s' := by
  have hwait : Leads (step c) Quiet s { s with now := s.now + tv.nanoseconds.toNat } := leads_ticks _
  have htime : tv.nanoseconds ≤ (s.now + tv.nanoseconds.toNat : Nat) := by omega
  have hout := Step.timeOut (c := c) (s := { s with now := s.now + tv.nanoseconds.toNat }) tv hplace htime
  have hcall := Step.call (c := c) (s := { s with now := s.now + tv.nanoseconds.toNat, place := .timedOut }) rfl hfree
  exact ⟨_, (hwait.trans (hout.leads nofun)).trans (hcall.leads nofun), rfl, rfl, rfl⟩

theorem callsOnce_of_locking {tv : timespec} (hplace : s.place = .locking tv) (hfree : s.i_mutex = none) :
    ∃ s', CallsOnce c s s' := by
  by_cases hvalid : tv.Valid
  · obtain ⟨s', hcalls⟩ := callsOnce_of_waiting (c := c) (s := { s with place := .waiting tv }) rfl hfree
    exact ⟨s', hcalls.of_leads ((Step.wait tv hplace hfree hvalid).leads nofun) rfl rfl⟩
  · exact ⟨_, (Step.refused tv hplace hfree hvalid).leads nofun, rfl, rfl, rfl⟩

theorem callsOnce_of_starting (hplace : s.place = .starting) (hfree : s.i_mutex = none) : ∃ s', CallsOnce c s s' := by
  obtain ⟨s', hcalls⟩ := callsOnce_of_locking (c := c) (s := { s with place := .locking (c.GetTv s.now) }) rfl hfree
  exact ⟨s', hcalls.of_leads ((Step.getTv hplace).leads nofun) rfl rfl⟩

/-- A thread that does not leave calls once more. -/
theorem exists_callsOnce (hinv : s.Inv) (howner : s.owner = .joining) (hstays : ¬s.Leaving) :
    ∃ s', CallsOnce c s s' := by
  have hended : s.place ≠ .ended := fun hplace => hstays (.inr hplace)
  have hfree : s.place ≠ .calling → s.i_mutex = none := fun hcalling => hinv.free howner hcalling hended
  cases hplace : s.place with
  | starting => exact callsOnce_of_starting hplace (hfree (by rw [hplace]; nofun))
  | locking tv => exact callsOnce_of_locking hplace (hfree (by rw [hplace]; nofun))
  | waiting tv => exact callsOnce_of_waiting hplace (hfree (by rw [hplace]; nofun))
  | signaled => exact absurd (.inl hplace) hstays
  | timedOut => exact ⟨_, (Step.call hplace (hfree (by rw [hplace]; nofun))).leads nofun, rfl, rfl, rfl⟩
  | calling =>
    obtain ⟨s', hcalls⟩ :=
      callsOnce_of_starting (c := c) (s := { s with place := .starting, i_mutex := none }) rfl rfl
    exact ⟨s', hcalls.of_leads ((Step.finish hplace).leads nofun) rfl rfl⟩
  | ended => exact absurd hplace hended

theorem exists_calls (hinv : s.Inv) (howner : s.owner = .joining) (hstays : ¬s.Leaving) (n : Nat) :
    ∃ s', Leads (step c) Quiet s s' ∧ s'.owner = .joining ∧ s'.calls.length = s.calls.length + n := by
  induction n with
  | zero => exact ⟨s, .refl, howner, rfl⟩
  | succ n ih =>
    obtain ⟨s₁, hleads, howner₁, hcalls⟩ := ih
    have hstays₁ : ¬s₁.Leaving := fun hl => hstays ((leaving_leads (.inr (.inl howner)) hleads).2.mp hl)
    obtain ⟨s', hmore⟩ := exists_callsOnce (c := c) (hinv.leads hleads) howner₁ hstays₁
    refine ⟨s', hleads.trans hmore.leads, hmore.owner.trans howner₁, ?_⟩
    rw [hmore.calls, hcalls, Nat.add_assoc]

theorem exists_calls_of_past (hinv : s.Inv) (hpast : s.Past) (hstays : ¬s.Leaving) (n : Nat) :
    ∃ s', Leads (step c) Quiet s s' ∧ s'.owner = .joining ∧ s'.calls.length = s.calls.length + n := by
  obtain howner | howner | howner := hpast
  · have hunlock : Step c s .ownerUnlock { s with owner := .joining, i_mutex := none } := .ownerUnlock howner
    obtain ⟨s', hleads, hmore⟩ := exists_calls (c := c) (hinv.step hunlock.eq_some) rfl hstays n
    exact ⟨s', (hunlock.leads nofun).trans hleads, hmore⟩
  · exact exists_calls hinv howner hstays n
  · exact absurd (.inr (hinv.joined howner)) hstays

theorem not_leaving_new {now : Nat} : ¬(new now).Leaving := by
  rintro (hplace | hplace)
  · cases hplace
  · cases hplace

/-- The thread leaves behind the signal if it was in its wait. -/
theorem signal_spec (hbefore : s.Past ∨ ¬s.Leaving) (h : step c s .signal = some s') :
    s'.Past ∧ (s'.Leaving ↔ s.Waiting) := by
  cases step_cases h with
  | wake tv howner hplace => exact ⟨.inl rfl, iff_of_true (.inl rfl) ⟨tv, hplace⟩⟩
  | lost howner hplace =>
    have hpast : ¬s.Past := by
      unfold Past
      rw [howner]
      decide
    have hstays : ¬s.Leaving := hbefore.resolve_left hpast
    exact ⟨.inl rfl, iff_of_false hstays hplace⟩

/-- The destructor comes back from its join only if its signal found the thread in the timed wait; the mutex is
locked then, when it is destroyed. Else the thread goes on to call. -/
theorem join_returns_iff (c : Cycle) (now : Nat) (pre post : List ThreadEvent) (s₀ s : CThread)
    (hpre : run (step c) (new now) pre = some s₀) (hpost : run (step c) s₀ (.signal :: post) = some s)
    (hquiet : ∀ e ∈ pre ++ post, Quiet e) :
    ((∃ s', Leads (step c) Quiet s s' ∧ s'.owner = .joined) ↔ s₀.Waiting) ∧
      (∀ s', Leads (step c) Quiet s s' → s'.owner = .joined → s'.i_mutex = some .thread) ∧
      (¬s₀.Waiting → ∀ n, ∃ s', Leads (step c) Quiet s s' ∧ s'.calls.length = s.calls.length + n) := by
  obtain ⟨hqpre, hqpost⟩ := List.forall_mem_append.mp hquiet
  have hleads₀ : Leads (step c) Quiet (new now) s₀ := leads_of_run hqpre hpre
  have hinv₀ : s₀.Inv := (inv_new now).leads hleads₀
  obtain ⟨s₁, hsignal, hpost⟩ := run_cons_eq_some.mp hpost
  obtain ⟨hpast₁, hleaving₁⟩ := signal_spec (not_leaving_leads not_leaving_new hleads₀) hsignal
  have hleads : Leads (step c) Quiet s₁ s := leads_of_run hqpost hpost
  have hinv : s.Inv := (hinv₀.step hsignal).leads hleads
  obtain ⟨hpast, hleaving⟩ := leaving_leads hpast₁ hleads
  rw [hleaving₁] at hleaving
  have hended : ∀ s', Leads (step c) Quiet s s' → s'.owner = .joined → s'.place = .ended :=
    fun s' hs' hjoined => (hinv.leads hs').joined hjoined
  refine ⟨⟨?_, ?_⟩, ?_, ?_⟩
  · rintro ⟨s', hs', hjoined⟩
    exact hleaving.mp ((leaving_leads hpast hs').2.mp (.inr (hended s' hs' hjoined)))
  · intro hwaiting
    exact exists_joined hinv hpast (hleaving.mpr hwaiting)
  · intro s' hs' hjoined
    exact (hinv.leads hs').thread.mpr (.inr (hended s' hs' hjoined))
  · intro hlost n
    have hstays : ¬s.Leaving := fun hl => hlost (hleaving.mp hl)
    obtain ⟨s', hs', -, hcalls⟩ := exists_calls_of_past hinv hpast hstays n
    exact ⟨s', hs', hcalls⟩

/-- The destructor signals while the thread waits for five milliseconds, and before the thread has begun to wait. -/
theorem join_returns_early :
    (∃ s, run (step fiveMilliseconds) (new 0) [.getTv, .lock, .ownerLock, .signal, .ownerUnlock] = some s ∧
      ∃ s', Leads (step fiveMilliseconds) Quiet s s' ∧ s'.owner = .joined) ∧
    ∃ s, run (step fiveMilliseconds) (new 0) [.ownerLock, .signal, .ownerUnlock] = some s ∧
      ¬∃ s', Leads (step fiveMilliseconds) Quiet s s' ∧ s'.owner = .joined := by
  refine ⟨⟨_, rfl, ?_⟩, ⟨_, rfl, ?_⟩⟩
  · have hreturns :=
      join_returns_iff fiveMilliseconds 0 [.getTv, .lock, .ownerLock] [.ownerUnlock] _ _ rfl rfl (by decide)
    exact hreturns.1.mpr ⟨_, rfl⟩
  · have hreturns := join_returns_iff fiveMilliseconds 0 [.ownerLock] [.ownerUnlock] _ _ rfl rfl (by decide)
    exact fun hjoined => nomatch hreturns.1.mp hjoined

/-- The thread is not in its wait nor behind it, and has no time to wait for. -/
def NeverWaits (s : CThread) : Prop :=
  match s.place with
  | .starting | .calling => True
  | .locking tv => ¬tv.Valid
  | _ => False

theorem neverWaits_step (hnever : ∀ now, ¬(c.GetTv now).Valid) (h : s.NeverWaits) (hstep : step c s e = some s') :
    s'.NeverWaits := by
  unfold NeverWaits at *
  cases step_cases hstep with
  | tick => exact h
  | getTv hplace => exact hnever s.now
  | wait tv hplace hfree hvalid =>
    rw [hplace] at h
    exact absurd hvalid h
  | refused tv hplace hfree hvalid => trivial
  | timeOut tv hplace htime =>
    rw [hplace] at h
    exact h.elim
  | spurious tv hplace =>
    rw [hplace] at h
    exact h.elim
  | leave hplace hfree =>
    rw [hplace] at h
    exact h.elim
  | call hplace hfree => trivial
  | finish hplace => trivial
  | ownerLock howner hfree => exact h
  | wake tv howner hplace =>
    rw [hplace] at h
    exact h.elim
  | lost howner hplace => exact h
  | ownerUnlock howner => exact h
  | join howner hplace => exact h

theorem not_valid_GetTv (h : c.s32mSecCycle ≤ -1000 ∨ 1000 ≤ c.s32mSecCycle) (now : Nat) : ¬(c.GetTv now).Valid := by
  rw [Cycle.valid_GetTv]
  omega

theorem exists_valid_GetTv (hlow : -1000 < c.s32mSecCycle) (hhigh : c.s32mSecCycle < 1000) (now : Nat) :
    ∃ n, (c.GetTv (now + n)).Valid := by
  by_cases hneg : 0 ≤ c.s32mSecCycle
  · refine ⟨1000000000 - now % 1000000000, ?_⟩
    rw [Cycle.valid_GetTv]
    push_cast
    omega
  · refine ⟨999999999 - now % 1000000000, ?_⟩
    rw [Cycle.valid_GetTv]
    push_cast
    omega

/-- A thread that waits can be destroyed. -/
theorem exists_joined_of_waiting {tv : timespec} (hinv : s.Inv) (hplace : s.place = .waiting tv)
    (howner : s.owner = .before) (hfree : s.i_mutex = none) : ∃ s', Leads (step c) Quiet s s' ∧ s'.owner = .joined := by
  have hlock : Step c s .ownerLock { s with owner := .locked, i_mutex := some .owner } := .ownerLock howner hfree
  have hwake := Step.wake (c := c) (s := { s with owner := .locked, i_mutex := some .owner }) tv rfl hplace
  have hinv' := (hinv.step hlock.eq_some).step hwake.eq_some
  obtain ⟨s', hleads, hjoined⟩ := exists_joined (c := c) hinv' (.inl rfl) (.inl rfl)
  exact ⟨s', ((hlock.leads nofun).trans (hwake.leads nofun)).trans hleads, hjoined⟩

/-- There is a history in which the destructor comes back only for a cycle whose milliseconds are less than a
second. -/
theorem exists_joined_iff (c : Cycle) (now : Nat) :
    (∃ s, Leads (step c) (fun _ => True) (new now) s ∧ s.owner = .joined) ↔
      -1000 < c.s32mSecCycle ∧ c.s32mSecCycle < 1000 := by
  constructor
  · rintro ⟨s, hleads, hjoined⟩
    by_contra hrange
    have hnever : ∀ now, ¬(c.GetTv now).Valid := not_valid_GetTv (by omega)
    have hwaits : s.NeverWaits := hleads.keeps trivial fun _ _ _ h _ hstep => neverWaits_step hnever h hstep
    have hended : s.place = .ended := ((inv_new now).leads hleads).joined hjoined
    unfold NeverWaits at hwaits
    rw [hended] at hwaits
    exact hwaits
  · rintro ⟨hlow, hhigh⟩
    obtain ⟨n, hvalid⟩ := exists_valid_GetTv hlow hhigh now
    have hticks : Leads (step c) Quiet (new now) (new (now + n)) := leads_ticks n
    have hget := Step.getTv (c := c) (s := new (now + n)) rfl
    have hwait :=
      Step.wait (c := c) (s := { new (now + n) with place := .locking (c.GetTv (now + n)) }) _ rfl rfl hvalid
    have hstart := (hticks.trans (hget.leads nofun)).trans (hwait.leads nofun)
    obtain ⟨s, hleads, hjoined⟩ := exists_joined_of_waiting (c := c) ((inv_new now).leads hstart) rfl rfl rfl
    exact ⟨s, (hstart.trans hleads).mono fun _ _ => trivial, hjoined⟩

/-- Each call begins a cycle after the call before it. -/
def Spaced (c : Cycle) (calls : List Nat) : Prop :=
  calls.IsChain fun later earlier : Nat => (earlier : Int) + c.nanoseconds ≤ later

/-- The last call was a cycle before the time. -/
def Due (c : Cycle) (calls : List Nat) (time : Int) : Prop := ∀ last ∈ calls.head?, (last : Int) + c.nanoseconds ≤ time

structure OnTime (c : Cycle) (s : CThread) : Prop where
  spaced : Spaced c s.calls
  past : ∀ last ∈ s.calls.head?, last ≤ s.now
  locking : ∀ tv, s.place = .locking tv → Due c s.calls tv.nanoseconds ∧ (tv.Valid ∨ c.nanoseconds ≤ 0)
  waiting : ∀ tv, s.place = .waiting tv → Due c s.calls tv.nanoseconds
  timedOut : s.place = .timedOut → Due c s.calls s.now

theorem onTime_new (now : Nat) : OnTime c (new now) where
  spaced := .nil
  past := nofun
  locking := nofun
  waiting := nofun
  timedOut := nofun

theorem Due.mono {calls : List Nat} {time time' : Int} (h : Due c calls time) (hle : time ≤ time') :
    Due c calls time' :=
  fun last hlast => Int.le_trans (h last hlast) hle

theorem OnTime.call (h : OnTime c s) (hdue : Due c s.calls s.now) : OnTime c s.call where
  spaced := List.isChain_cons.mpr ⟨hdue, h.spaced⟩
  past := by
    rintro last ⟨⟩
    exact le_rfl
  locking := nofun
  waiting := nofun
  timedOut := nofun

/-- The time of the clock counts when there are no milliseconds, or nothing to wait for. -/
theorem OnTime.step (hc : c.s32mSecCycle = 0 ∨ c.nanoseconds ≤ 0) (h : OnTime c s) (hstep : step c s e = some s') :
    OnTime c s' := by
  cases step_cases hstep with
  | tick =>
    refine ⟨h.spaced, ?_, h.locking, h.waiting, fun hplace => ?_⟩
    · exact fun last hlast => (h.past last hlast).trans (Nat.le_succ _)
    · apply (h.timedOut hplace).mono
      exact Int.ofNat_le.mpr (Nat.le_succ _)
  | getTv hplace =>
    refine ⟨h.spaced, h.past, ?_, nofun, nofun⟩
    rintro tv ⟨⟩
    refine ⟨fun last hlast => ?_, hc.imp_left fun hmsec => ?_⟩
    · have hlast := h.past last hlast
      rw [Cycle.nanoseconds_GetTv]
      omega
    · rw [Cycle.valid_GetTv, hmsec]
      omega
  | wait tv hplace hfree hvalid =>
    refine ⟨h.spaced, h.past, nofun, ?_, nofun⟩
    rintro tv' ⟨⟩
    exact (h.locking tv hplace).1
  | refused tv hplace hfree hvalid =>
    have hnone : c.nanoseconds ≤ 0 := (h.locking tv hplace).2.resolve_left hvalid
    apply h.call
    intro last hlast
    have hlast := h.past last hlast
    omega
  | timeOut tv hplace htime => exact ⟨h.spaced, h.past, nofun, nofun, fun _ => (h.waiting tv hplace).mono htime⟩
  | spurious tv hplace => exact ⟨h.spaced, h.past, nofun, nofun, nofun⟩
  | leave hplace hfree => exact ⟨h.spaced, h.past, nofun, nofun, nofun⟩
  | call hplace hfree => exact h.call (h.timedOut hplace)
  | finish hplace => exact ⟨h.spaced, h.past, nofun, nofun, nofun⟩
  | ownerLock howner hfree => exact ⟨h.spaced, h.past, h.locking, h.waiting, h.timedOut⟩
  | wake tv howner hplace => exact ⟨h.spaced, h.past, nofun, nofun, nofun⟩
  | lost howner hplace => exact ⟨h.spaced, h.past, h.locking, h.waiting, h.timedOut⟩
  | ownerUnlock howner => exact ⟨h.spaced, h.past, h.locking, h.waiting, h.timedOut⟩
  | join howner hplace => exact ⟨h.spaced, h.past, h.locking, h.waiting, h.timedOut⟩

/-- A time that is refused is followed by the next call at once. -/
theorem exists_two_calls {now : Nat} (hvalid : ¬(c.GetTv now).Valid) :
    ∃ s, Leads (CThread.step c) Quiet (new now) s ∧ s.calls = [now, now] := by
  have hrun : run (CThread.step c) (new now) [.getTv, .lock, .finish, .getTv, .lock] =
      some { now := now, place := .calling, i_mutex := some .thread, calls := [now, now] } := by
    simp only [run, List.foldlM_cons, List.foldlM_nil, CThread.step, new, Option.bind_eq_bind, Option.bind_some,
      if_true, timedwait_of_not_valid hvalid, CThread.call]
    rfl
  exact ⟨_, leads_of_run (by decide) hrun, rfl⟩

/-- In every history each call of `m_Cb` begins a cycle after the one before it, exactly if the cycle has no
milliseconds or is not positive. -/
theorem calls_spaced_iff (c : Cycle) :
    (∀ now s, Leads (step c) (fun _ => True) (new now) s → Spaced c s.calls) ↔
      c.s32mSecCycle = 0 ∨ c.nanoseconds ≤ 0 := by
  constructor
  · intro h
    by_contra hneither
    obtain ⟨hmsec, hpos⟩ := not_or.mp hneither
    have hrefused : ∃ now, ¬(c.GetTv now).Valid := by
      by_cases hneg : 0 ≤ c.s32mSecCycle
      · refine ⟨999999999, ?_⟩
        rw [Cycle.valid_GetTv]
        omega
      · refine ⟨0, ?_⟩
        rw [Cycle.valid_GetTv]
        omega
    obtain ⟨now, hvalid⟩ := hrefused
    obtain ⟨s, hleads, hcalls⟩ := exists_two_calls hvalid
    have hspaced := h now s (hleads.mono fun _ _ => trivial)
    rw [hcalls] at hspaced
    have hgap : (now : Int) + c.nanoseconds ≤ now := (List.isChain_cons_cons.mp hspaced).1
    omega
  · intro hc now s hleads
    exact (hleads.keeps (onTime_new now) fun _ _ _ h _ hstep => h.step hc hstep).spaced

end CThread

end Perception.Thread
