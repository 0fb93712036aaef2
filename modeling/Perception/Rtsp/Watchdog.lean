import Perception.Lib.History
import Perception.Rtsp.RtspCliMng

/-!
# The watchdog of a camera

`PullStream` is meant to restart a camera that has been silent for `s32ReconTimeOut`
seconds. It does so only while `m_bReconnFlag` is set, and nothing sets the flag, so that
it restarts a camera for an update and for nothing else.
-/
namespace Perception.Rtsp

set_option autoImplicit false

open Perception.Lib.History

/-- What happens to a manager outside of its loop: a frame arrives, the configuration is
updated. -/
inductive Arrival
  | frame (r : Received) (now : Int)
  | update (camBaseInfo : TCameraBaseInfo)

/-- `pull` has what arrives while `SingleStep` runs, the time of the check behind it, and
the answer of ONVIF to a restart. -/
inductive CamEvent
  | arrival (a : Arrival)
  | pull (arrivals : List Arrival) (now : Int) (onvif : Bool)

/-- A manager in stream mode with the clock and the later of the last I-frame that was
processed and the last restart. -/
structure Watched where
  mng : CRtspCliMng
  clock : Int
  since : Int

namespace Watched

variable (sws : SwScale)

/-- A frame arrives when the client is open, and the clock does not go back. -/
def arrive (w : Watched) : Arrival → Option Watched
  | .frame r now =>
    if w.mng.m_RtspClientPtr && w.clock ≤ now then
      (w.mng.CallBackFunc sws r now).map fun p =>
        ⟨p.1, now, if w.mng.processes r then now else w.since⟩
    else none
  | .update camBaseInfo =>
    if camBaseInfo.s32WorkMode = .STREAM_MODEL then some { w with mng := w.mng.UpdateCamBaseInfo camBaseInfo }
    else none

/-- What the manager is when `PullStream` makes its check; without a scheduler, and when it
restarts at once, it does not call `SingleStep`. -/
def singleStep (w : Watched) (arrivals : List Arrival) : Option Watched :=
  if w.mng.GetUpdate || !w.mng.m_pScheduler then some w else arrivals.foldlM (arrive sws) w

/-- The state after the loop, and whether it restarted the camera. -/
def pull (w : Watched) (arrivals : List Arrival) (now : Int) (onvif : Bool) : Option (Watched × Bool) :=
  (w.singleStep sws arrivals).bind fun w' =>
    if w'.clock ≤ now then
      let (mng, restarted) := w.mng.PullStream w'.mng onvif now
      some (⟨mng, now, if restarted then now else w'.since⟩, restarted)
    else none

def step (w : Watched) : CamEvent → Option Watched
  | .arrival a => w.arrive sws a
  | .pull arrivals now onvif => (w.pull sws arrivals now onvif).map Prod.fst

/-- A manager in stream mode is made and its camera opened. -/
def start (bUpdate : Bool) (que : Option CVSQueue) (now : Int) (onvif : Bool) : Watched :=
  ⟨(CRtspCliMng.new ⟨.STREAM_MODEL, bUpdate⟩ que now).OpenCamera onvif, now, now⟩

/-- More than `s32ReconTimeOut` seconds have passed. -/
def Due (w : Watched) (now : Int) : Prop := CRtspCliMng.s32ReconTimeOut < now - w.since

/-- The loop checks the camera: the scheduler is open and no update waits. -/
def checks (w : Watched) : Bool := w.mng.m_pScheduler && !w.mng.GetUpdate

/-- Where the loop checks the camera, it restarts it exactly when that is due. -/
def RestartsWhenDue (w : Watched) : CamEvent → Prop
  | .arrival _ => True
  | .pull arrivals now onvif =>
    w.checks = true → ∀ w' w'' restarted, w.singleStep sws arrivals = some w' →
      w.pull sws arrivals now onvif = some (w'', restarted) → (restarted = true ↔ w'.Due now)

/-- No restart is due when the loop checks the camera. -/
def InTime (w : Watched) : CamEvent → Prop
  | .arrival _ => True
  | .pull arrivals now _ =>
    w.checks = true → ∀ w', w.singleStep sws arrivals = some w' → w'.clock ≤ now → ¬ w'.Due now

end Watched

namespace CRtspCliMng

variable {sws : SwScale} {s s' : CRtspCliMng}

@[simp] theorem m_bReconnFlag_SetUpdate (b : Bool) : (s.SetUpdate b).m_bReconnFlag = s.m_bReconnFlag := rfl

@[simp] theorem m_bReconnFlag_UpdateCamBaseInfo (camBaseInfo : TCameraBaseInfo) :
    (s.UpdateCamBaseInfo camBaseInfo).m_bReconnFlag = s.m_bReconnFlag := rfl

theorem m_bReconnFlag_OpenCamera (onvif : Bool) : (s.OpenCamera onvif).m_bReconnFlag = s.m_bReconnFlag := by
  unfold OpenCamera SetPullStreamCB
  split
  · split
    · rfl
    · rfl
  · rfl

theorem m_bReconnFlag_RestartCam (onvif : Bool) : (s.RestartCam onvif).m_bReconnFlag = s.m_bReconnFlag := by
  unfold RestartCam
  rw [m_bReconnFlag_SetUpdate, m_bReconnFlag_OpenCamera]
  rfl

/-- The callback leaves the flag as it is or clears it. -/
theorem m_bReconnFlag_CallBackFunc {r : Received} {now : Int} {sMatObj : Option Mat} (hs : s.m_bReconnFlag = false)
    (h : s.CallBackFunc sws r now = some (s', sMatObj)) : s'.m_bReconnFlag = false := by
  unfold CallBackFunc at h
  split at h
  · cases h
    exact hs
  · split at h
    · cases h
      rfl
    · obtain ⟨ffmpeg, -, h⟩ := Option.bind_eq_some_iff.mp h
      split at h
      · cases h
        rfl
      · obtain ⟨p, -, h⟩ := Option.bind_eq_some_iff.mp h
        cases h
        rfl

theorem GetConnTimeOut_of_clear {now : Int} (hs : s.m_bReconnFlag = false) : s.GetConnTimeOut now = (false, s) := by
  simp only [GetConnTimeOut, hs, Bool.false_and, Bool.false_eq_true, if_false]

/-- While the flag is clear the loop restarts the camera for an update only. -/
theorem PullStream_of_clear {stepped : CRtspCliMng} (onvif : Bool) (now : Int) (hs : stepped.m_bReconnFlag = false) :
    s.PullStream stepped onvif now =
      if s.GetUpdate then (s.RestartCam onvif, true) else if s.m_pScheduler then (stepped, false) else (s, false) := by
  unfold PullStream
  rw [GetConnTimeOut_of_clear hs]

end CRtspCliMng

namespace Watched

variable {sws : SwScale} {w w' : Watched} {e : CamEvent}

def Clear (w : Watched) : Prop := w.mng.m_bReconnFlag = false

theorem clear_arrive {a : Arrival} (hw : Clear w) (h : w.arrive sws a = some w') : Clear w' := by
  cases a with
  | frame r now =>
    rw [arrive] at h
    split at h
    · obtain ⟨⟨mng, sMatObj⟩, hcb, rfl⟩ := Option.map_eq_some_iff.mp h
      exact CRtspCliMng.m_bReconnFlag_CallBackFunc hw hcb
    · cases h
  | update camBaseInfo =>
    rw [arrive] at h
    split at h
    · cases h
      exact hw
    · cases h

theorem clear_arrivals {arrivals : List Arrival} (hw : Clear w) (h : arrivals.foldlM (arrive sws) w = some w') :
    Clear w' := by
  induction arrivals generalizing w with
  | nil =>
    cases h
    exact hw
  | cons a arrivals ih =>
    rw [List.foldlM_cons] at h
    obtain ⟨w₁, h₁, h⟩ := Option.bind_eq_some_iff.mp h
    exact ih (clear_arrive hw h₁) h

theorem clear_singleStep {arrivals : List Arrival} (hw : Clear w) (h : w.singleStep sws arrivals = some w') :
    Clear w' := by
  unfold singleStep at h
  split at h
  · cases h
    exact hw
  · exact clear_arrivals hw h

theorem pull_inv {arrivals : List Arrival} {now : Int} {onvif restarted : Bool}
    (h : w.pull sws arrivals now onvif = some (w', restarted)) :
    ∃ w₁, w.singleStep sws arrivals = some w₁ ∧ w₁.clock ≤ now ∧
      w.mng.PullStream w₁.mng onvif now = (w'.mng, restarted) := by
  obtain ⟨w₁, hsingle, h⟩ := Option.bind_eq_some_iff.mp h
  split at h
  · next hclock =>
    cases h
    exact ⟨w₁, hsingle, hclock, rfl⟩
  · cases h

theorem clear_step (hw : Clear w) (h : w.step sws e = some w') : Clear w' := by
  cases e with
  | arrival a => exact clear_arrive hw h
  | pull arrivals now onvif =>
    obtain ⟨⟨w₂, restarted⟩, hpull, rfl⟩ := Option.map_eq_some_iff.mp h
    obtain ⟨w₁, hsingle, -, hmng⟩ := pull_inv hpull
    have hw₁ := clear_singleStep hw hsingle
    rw [CRtspCliMng.PullStream_of_clear onvif now hw₁] at hmng
    have hmng' := congrArg (fun p => CRtspCliMng.m_bReconnFlag p.1) hmng
    apply hmng'.symm.trans
    split
    · exact (CRtspCliMng.m_bReconnFlag_RestartCam onvif).trans hw
    · split
      · exact hw₁
      · exact hw

/-- A check that finds the flag clear does not restart the camera. -/
theorem not_restarted_of_clear {arrivals : List Arrival} {now : Int} {onvif restarted : Bool} (hw : Clear w)
    (hchecks : w.checks = true) (h : w.pull sws arrivals now onvif = some (w', restarted)) : restarted = false := by
  obtain ⟨w₁, hsingle, -, hmng⟩ := pull_inv h
  rw [checks, Bool.and_eq_true, Bool.not_eq_true'] at hchecks
  rw [CRtspCliMng.PullStream_of_clear onvif now (clear_singleStep hw hsingle), hchecks.1, hchecks.2] at hmng
  exact (congrArg Prod.snd hmng).symm

theorem restartsWhenDue_iff_inTime (hw : Clear w) : RestartsWhenDue sws w e ↔ InTime sws w e := by
  cases e with
  | arrival a => exact Iff.rfl
  | pull arrivals now onvif =>
    constructor
    · intro h hchecks w₁ hsingle hclock hdue
      have hpull : w.pull sws arrivals now onvif =
          some (⟨(w.mng.PullStream w₁.mng onvif now).1, now,
            if (w.mng.PullStream w₁.mng onvif now).2 then now else w₁.since⟩,
            (w.mng.PullStream w₁.mng onvif now).2) := by
        rw [pull, hsingle, Option.bind_some, if_pos hclock]
      have hrestarted := (h hchecks w₁ _ _ hsingle hpull).mpr hdue
      rw [not_restarted_of_clear hw hchecks hpull] at hrestarted
      cases hrestarted
    · intro h hchecks w₁ w₂ restarted hsingle hpull
      rw [not_restarted_of_clear hw hchecks hpull]
      obtain ⟨w₁', hsingle', hclock, -⟩ := pull_inv hpull
      rw [hsingle] at hsingle'
      cases hsingle'
      exact iff_of_false Bool.false_ne_true (h hchecks w₁ hsingle hclock)

theorem clear_start (bUpdate : Bool) (que : Option CVSQueue) (now : Int) (onvif : Bool) :
    Clear (start bUpdate que now onvif) := CRtspCliMng.m_bReconnFlag_OpenCamera onvif

/-- In every run the flag is clear, and so no check restarts the camera. -/
theorem never_restarts (sws : SwScale) (bUpdate : Bool) (que : Option CVSQueue) (now : Int)
    (onvif : Bool) (es : List CamEvent) :
    Always (step sws) Clear (start bUpdate que now onvif) es := by
  refine always_of_eachStep (C := fun _ _ => True) (fun w e w' hw _ h => clear_step hw h) ?_ ?_
  · exact clear_start bUpdate que now onvif
  · exact fun _ _ _ _ _ _ => trivial

/-- The loop restarts the camera when it is due, and only then, exactly in the runs where it
never is due. -/
theorem restarts_iff_inTime (sws : SwScale) (bUpdate : Bool) (que : Option CVSQueue) (now : Int)
    (onvif : Bool) (es : List CamEvent) :
    EachStep (step sws) (RestartsWhenDue sws) (start bUpdate que now onvif) es ↔
      EachStep (step sws) (InTime sws) (start bUpdate que now onvif) es :=
  eachStep_congr (fun _ _ _ hw h => clear_step hw h) (clear_start bUpdate que now onvif)
    fun _ _ hw => restartsWhenDue_iff_inTime hw

/-- Six seconds without a frame, and the camera is not restarted. -/
theorem not_restarts_silent :
    ¬ EachStep (step .black) (RestartsWhenDue .black) (start false none 0 true) [.pull [] 6 true] := by
  intro h
  have hdue : (start false none 0 true).Due 6 := by
    unfold Due
    decide
  have hrestarts := (eachStep_cons.mp h).1 rfl (start false none 0 true) _ false rfl rfl
  exact Bool.false_ne_true (hrestarts.mpr hdue)

end Watched

end Perception.Rtsp
