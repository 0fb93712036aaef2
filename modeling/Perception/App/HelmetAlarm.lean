import Perception.App.OnlyConfigured
import Perception.Lib.Matching

/-!
# The alarm for persons without a helmet

The voice stays silent when there are no fewer helmets than persons and each person has one
that `IsOverlap` accepts, which may be the same for two of them.
-/
namespace Perception.App.CommSafeDetect

set_option autoImplicit false

open Perception.Lib Perception.Cfg Perception.Db

variable {obj : CommSafeDetect} {strIp : String} {dets : List detection}

/-- The voice is played when the object can report for the address, and the boxes say so. -/
theorem nohelmet_mem_iff :
    Action.nohelmet ∈ (obj.ProResultMsg strIp dets).log ↔ CanReport obj strIp ∧ obj.bAlarm dets = true := by
  constructor
  · intro h
    refine ⟨(canReport_of_mem_log h).1, ?_⟩
    unfold ProResultMsg at h
    split at h
    · cases h
    · rcases Traced.mem_log_bind.mp h with hloop | ⟨_, -, halarm⟩
      · obtain ⟨task, -, htask⟩ := Traced.mem_log_of_forM hloop
        obtain ⟨-, row, -, heq⟩ := row_of_mem_saveAlert htask
        cases heq
      · split at halarm
        · assumption
        · cases halarm
  · rintro ⟨hcan, halarm⟩
    have hknown : ¬(SortedMap.find? obj.m_mapDataSrc strIp).isNone = true := by
      rw [← Option.not_isSome, hcan.1]
      exact Bool.false_ne_true
    have hval : (obj.m_lstStrTask.forM (obj.saveAlert strIp dets)).val = some () :=
      Traced.val_forM_eq_some.mpr fun task _ => val_saveAlert_of_canReport hcan dets task
    unfold ProResultMsg
    rw [if_neg hknown, if_pos halarm]
    exact Traced.mem_log_bind.mpr (.inr ⟨(), hval, List.mem_singleton_self _⟩)

theorem bAlarm_eq_true_iff (hperson : "0" ∈ obj.m_lstStrTask) (hhelmet : "23" ∈ obj.m_lstStrTask)
    (hbox : DetectInference dets "0" ≠ []) :
    obj.bAlarm dets = true ↔
      (DetectInference dets "23").length < (DetectInference dets "0").length ∨
        ∃ personBox ∈ DetectInference dets "0", ∀ helmetBox ∈ DetectInference dets "23",
          IsOverlap personBox helmetBox = false := by
  unfold bAlarm
  simp [hperson, hhelmet, hbox]

/-- If the voice is silent then each person has a helmet of their own: this holds where the
voice is played, and else only where any persons together accept at least as many helmets as
they are. -/
theorem silent_matched_iff (obj : CommSafeDetect) (strIp : String) (dets : List detection)
    (hperson : "0" ∈ obj.m_lstStrTask) (hhelmet : "23" ∈ obj.m_lstStrTask) (hbox : DetectInference dets "0" ≠ []) :
    (Action.nohelmet ∉ (obj.ProResultMsg strIp dets).log →
        Matched IsOverlap (DetectInference dets "0") (DetectInference dets "23")) ↔
      (CanReport obj strIp ∧
        ((DetectInference dets "23").length < (DetectInference dets "0").length ∨
          ∃ personBox ∈ DetectInference dets "0", ∀ helmetBox ∈ DetectInference dets "23",
            IsOverlap personBox helmetBox = false)) ∨
      Hall IsOverlap (DetectInference dets "0") (DetectInference dets "23") := by
  rw [nohelmet_mem_iff, bAlarm_eq_true_iff hperson hhelmet hbox, matched_iff_hall]
  exact ⟨fun h => or_iff_not_imp_left.mpr h, fun h => or_iff_not_imp_left.mp h⟩

/-- A task for a gate, with persons and helmets among its classes. -/
def gateTask : CommSafeDetect where
  m_jTaskCfg := .object [(strAttriIdx, .string "1"), (strAttriType, .string "task")]
  m_lstStrTask := ["0", "23"]
  m_mapDataSrc := [("192.168.0.2", .object
    [(strAttriDesc, .string "gate"), (strAttriIdx, .string "1"), (strAttriType, .string "ipc")])]
  m_ptrMsgBus := true

theorem gateTask_canReport : CanReport gateTask "192.168.0.2" :=
  ⟨rfl, 0, List.mem_cons_self, _, rfl⟩

/-- Two persons, of whom one has a helmet that is accepted for both. -/
def ownHelmets : List detection :=
  [⟨⟨4, 4, 4, 4⟩, 0, true⟩, ⟨⟨5, 4, 4, 4⟩, 0, true⟩, ⟨⟨4, 2, 1, 1⟩, 23, true⟩, ⟨⟨6, 2, 1, 1⟩, 23, true⟩]

theorem matched_ownHelmets :
    Matched IsOverlap (DetectInference ownHelmets "0") (DetectInference ownHelmets "23") := by
  have hall : Hall IsOverlap (DetectInference ownHelmets "0") (DetectInference ownHelmets "23") := by
    unfold Hall
    decide
  refine (silent_matched_iff gateTask "192.168.0.2" ownHelmets ?_ ?_ ?_).mpr (.inr hall) fun h => ?_
  · decide
  · decide
  · decide
  · exact absurd (nohelmet_mem_iff.mp h).2 (by decide)

/-- Two persons under one helmet, and a helmet that lies about. -/
def sharedHelmet : List detection :=
  [⟨⟨4, 4, 4, 4⟩, 0, true⟩, ⟨⟨5, 4, 4, 4⟩, 0, true⟩, ⟨⟨4, 2, 1, 1⟩, 23, true⟩, ⟨⟨20, 2, 1, 1⟩, 23, true⟩]

theorem silent_for_sharedHelmet :
    CanReport gateTask "192.168.0.2" ∧ "0" ∈ gateTask.m_lstStrTask ∧ "23" ∈ gateTask.m_lstStrTask ∧
      DetectInference sharedHelmet "0" ≠ [] ∧
      Action.nohelmet ∉ (gateTask.ProResultMsg "192.168.0.2" sharedHelmet).log ∧
      ¬Matched IsOverlap (DetectInference sharedHelmet "0") (DetectInference sharedHelmet "23") := by
  refine ⟨gateTask_canReport, by decide, by decide, by decide, fun h => ?_, ?_⟩
  · exact absurd (nohelmet_mem_iff.mp h).2 (by decide)
  · rw [matched_iff_hall]
    intro hall
    exact absurd (hall Finset.univ) (by decide)

/-- Where the persons are apart, so that no helmet is accepted for two of them, silence means
that each has a helmet. -/
theorem matched_of_silent (hperson : "0" ∈ obj.m_lstStrTask) (hhelmet : "23" ∈ obj.m_lstStrTask)
    (hbox : DetectInference dets "0" ≠ []) (hcan : CanReport obj strIp)
    (hsilent : Action.nohelmet ∉ (obj.ProResultMsg strIp dets).log)
    (hapart : ∀ i i' j, IsOverlap ((DetectInference dets "0").get i) ((DetectInference dets "23").get j) = true →
      IsOverlap ((DetectInference dets "0").get i') ((DetectInference dets "23").get j) = true → i = i') :
    Matched IsOverlap (DetectInference dets "0") (DetectInference dets "23") := by
  apply matched_of_exclusive hapart
  intro personBox hmem
  by_contra hnone
  refine hsilent (nohelmet_mem_iff.mpr ⟨hcan, (bAlarm_eq_true_iff hperson hhelmet hbox).mpr (.inr ?_)⟩)
  refine ⟨personBox, hmem, fun helmetBox hhelmetBox => ?_⟩
  rw [← Bool.not_eq_true]
  exact fun hacc => hnone ⟨helmetBox, hhelmetBox, hacc⟩

/-- An alarm is never false: the persons cannot each have a helmet of their own. -/
theorem not_matched_of_alarm (hperson : "0" ∈ obj.m_lstStrTask) (hhelmet : "23" ∈ obj.m_lstStrTask)
    (hbox : DetectInference dets "0" ≠ []) (halarm : Action.nohelmet ∈ (obj.ProResultMsg strIp dets).log) :
    ¬Matched IsOverlap (DetectInference dets "0") (DetectInference dets "23") := by
  intro hmatched
  rcases (bAlarm_eq_true_iff hperson hhelmet hbox).mp (nohelmet_mem_iff.mp halarm).2 with hfew | ⟨p, hp, hnone⟩
  · exact absurd hmatched.length_le (not_le.mpr hfew)
  · obtain ⟨y, hy, hacc⟩ := hmatched.exists_accepts hp
    rw [hnone y hy] at hacc
    cases hacc

end Perception.App.CommSafeDetect
