import Perception.App.OnlyConfigured
import Perception.Lib.Turn

/-!
# The task list of an application

`GetAppModuleTaskLst` returns at the first enabled task whose algorithm is not configured,
where it goes on at a task that is disabled. The tasks behind it are lost.
-/
namespace Perception.App

set_option autoImplicit false

open Perception.Lib Perception.Cfg Perception.Db StateExcept

def transferId (elm : Json) : Except Exn String := elm.attr strAttriTransferId

/-- The ids of the data sources of a task. -/
def transferIds (jTask : Json) : Except Exn (List String) := do
  let jDataSrc ← (jTask.read [.key strAttriDataSrc]).1
  jDataSrc.elems.mapM transferId

/-- The algorithm that the task names. -/
def taskAlg (m : CfgObjMap) (jTask : Json) : Except Exn (Option Json) := do
  let strAlgIdx ← jTask.attr Db.strAttriAlgIdx
  pure (m.getFirst (AlgCfgMap strAlgIdx))

/-- What is asked for one task, whatever the others are: the task with its algorithm and its
data sources, if it is enabled and its algorithm is configured. -/
def taskTuple (m : CfgObjMap) (jTask : Json) : Option TaskCfg :=
  match jTask.attr strAttriStartTime, jTask.attr strAttriEndTime, taskAlg m jTask, transferIds jTask with
  | .ok strStartTime, .ok strEndTime, .ok (some algCfg), .ok ids =>
    if strStartTime = strEndTime then none
    else some ⟨(jTask.read [.key strAttriDataSrc]).2, algCfg, ids.flatMap m.getList⟩
  | _, _, _, _ => none

/-- An enabled task whose algorithm is not configured. -/
def Unresolved (m : CfgObjMap) (jTask : Json) : Prop := Enabled jTask ∧ taskAlg m jTask = .ok none

/-- What is read of the task has the right types: the times, the `alg_idx` of an enabled
task, and the data sources of one whose algorithm is configured. -/
def Readable (m : CfgObjMap) (jTask : Json) : Prop :=
  ∃ strStartTime strEndTime, jTask.attr strAttriStartTime = .ok strStartTime ∧
    jTask.attr strAttriEndTime = .ok strEndTime ∧
      (strStartTime = strEndTime ∨ taskAlg m jTask = .ok none ∨
        ∃ algCfg ids, taskAlg m jTask = .ok (some algCfg) ∧ transferIds jTask = .ok ids)

/-- The body of the loop. -/
def taskTurn (m : CfgObjMap) (jTask : Json) : Except Exn (Turn TaskCfg) := do
  let strStartTime ← jTask.attr strAttriStartTime
  let strEndTime ← jTask.attr strAttriEndTime
  if strStartTime = strEndTime then pure .skip
  else do
    match ← taskAlg m jTask with
    | none => pure .stop
    | some algCfg => do
      let ids ← transferIds jTask
      pure (.emit ⟨(jTask.read [.key strAttriDataSrc]).2, algCfg, ids.flatMap m.getList⟩)

variable {m : CfgObjMap} {jTask : Json}

theorem collect_dataSrcCfgs (m : CfgObjMap) (elms : List Json) :
    collect (dataSrcCfgs m) elms = (elms.mapM transferId).map fun ids => ids.flatMap m.getList := by
  induction elms with
  | nil => rfl
  | cons elm elms ih =>
    rw [collect, ih, List.mapM_cons, dataSrcCfgs, transferId]
    cases elm.attr strAttriTransferId with
    | error e => rfl
    | ok id =>
      cases elms.mapM transferId with
      | error e => rfl
      | ok ids => rfl

/-- The function is its loop. -/
theorem GetAppModuleTaskLst_eq_loop (m : CfgObjMap) (jTaskLst : List Json) :
    GetAppModuleTaskLst m jTaskLst = Turn.loop (taskTurn m) jTaskLst := by
  induction jTaskLst with
  | nil => rfl
  | cons jTask jTaskLst ih =>
    rw [GetAppModuleTaskLst, Turn.loop, ← ih, taskTurn, taskAlg, transferIds]
    cases jTask.attr strAttriStartTime with
    | error e => rfl
    | ok strStartTime =>
      cases jTask.attr strAttriEndTime with
      | error e => rfl
      | ok strEndTime =>
        simp only [except_ok_bind]
        by_cases heq : strStartTime = strEndTime
        · rw [if_pos heq, if_pos heq]
          rfl
        · rw [if_neg heq, if_neg heq]
          cases jTask.attr Db.strAttriAlgIdx with
          | error e => rfl
          | ok strAlgIdx =>
            simp only [except_ok_bind]
            cases halg : m.getFirst (AlgCfgMap strAlgIdx) with
            | none => rfl
            | some algCfg =>
              cases (jTask.read [.key strAttriDataSrc]).1 with
              | error e => rfl
              | ok jDataSrc =>
                simp only [except_ok_bind, collect_dataSrcCfgs]
                cases jDataSrc.elems.mapM transferId with
                | error e => rfl
                | ok ids =>
                  cases GetAppModuleTaskLst m jTaskLst with
                  | error e => rfl
                  | ok lst => rfl

/-- What one turn adds is what is asked for its task. -/
theorem emitted_taskTurn (m : CfgObjMap) (jTask : Json) : Turn.emitted (taskTurn m jTask) = taskTuple m jTask := by
  rw [taskTurn, taskTuple]
  cases jTask.attr strAttriStartTime with
  | error e => rfl
  | ok strStartTime =>
    cases jTask.attr strAttriEndTime with
    | error e => rfl
    | ok strEndTime =>
      simp only [except_ok_bind]
      by_cases heq : strStartTime = strEndTime
      · simp only [if_pos heq]
        cases taskAlg m jTask with
        | error e => rfl
        | ok alg =>
          cases alg with
          | none => rfl
          | some algCfg =>
            cases transferIds jTask with
            | error e => rfl
            | ok ids => exact (if_pos heq).symm
      · simp only [if_neg heq]
        cases taskAlg m jTask with
        | error e => rfl
        | ok alg =>
          cases alg with
          | none => rfl
          | some algCfg =>
            cases transferIds jTask with
            | error e => rfl
            | ok ids => exact (if_neg heq).symm

theorem taskTurn_eq_stop : taskTurn m jTask = .ok .stop ↔ Unresolved m jTask := by
  constructor
  · intro h
    obtain ⟨strStartTime, hstart, h⟩ := except_bind_eq_ok.mp h
    obtain ⟨strEndTime, hend, h⟩ := except_bind_eq_ok.mp h
    split at h
    · cases h
    · next hne =>
      obtain ⟨alg, halg, h⟩ := except_bind_eq_ok.mp h
      cases alg with
      | none => exact ⟨⟨strStartTime, strEndTime, hstart, hend, hne⟩, halg⟩
      | some algCfg =>
        obtain ⟨ids, -, h⟩ := except_bind_eq_ok.mp h
        cases h
  · intro h
    obtain ⟨⟨strStartTime, strEndTime, hstart, hend, hne⟩, halg⟩ := h
    rw [taskTurn, hstart, except_ok_bind, hend, except_ok_bind, if_neg hne, halg]
    rfl

theorem readable_iff : Readable m jTask ↔ ∃ t, taskTurn m jTask = .ok t := by
  constructor
  · intro h
    obtain ⟨strStartTime, strEndTime, hstart, hend, h⟩ := h
    rw [taskTurn, hstart, except_ok_bind, hend, except_ok_bind]
    split
    · exact ⟨_, rfl⟩
    · next hne =>
      rcases h.resolve_left hne with halg | ⟨algCfg, ids, halg, hids⟩
      · rw [halg]
        exact ⟨_, rfl⟩
      · rw [halg, except_ok_bind]
        simp only [hids, except_ok_bind]
        exact ⟨_, rfl⟩
  · intro h
    obtain ⟨t, h⟩ := h
    obtain ⟨strStartTime, hstart, h⟩ := except_bind_eq_ok.mp h
    obtain ⟨strEndTime, hend, h⟩ := except_bind_eq_ok.mp h
    refine ⟨strStartTime, strEndTime, hstart, hend, ?_⟩
    split at h
    · next heq => exact .inl heq
    · obtain ⟨alg, halg, h⟩ := except_bind_eq_ok.mp h
      cases alg with
      | none => exact .inr (.inl halg)
      | some algCfg =>
        obtain ⟨ids, hids, -⟩ := except_bind_eq_ok.mp h
        exact .inr (.inr ⟨algCfg, ids, halg, hids⟩)

theorem exists_error_iff : (∃ e, taskTurn m jTask = .error e) ↔ ¬ Readable m jTask := by
  rw [readable_iff]
  cases taskTurn m jTask with
  | error e => exact iff_of_true ⟨e, rfl⟩ fun ⟨t, h⟩ => nomatch h
  | ok t => exact iff_of_false (fun ⟨e, h⟩ => nomatch h) (fun h => h ⟨t, rfl⟩)

/-- Every task is treated on its own exactly when no task that would be taken stands behind
one whose algorithm is missing, and none that cannot be read stands before all of these. -/
theorem taskLst_eq_filterMap_iff (m : CfgObjMap) (jTaskLst : List Json) :
    GetAppModuleTaskLst m jTaskLst = .ok (jTaskLst.filterMap (taskTuple m)) ↔
      ∀ pre jTask post, jTaskLst = pre ++ jTask :: post →
        (Unresolved m jTask → ∀ t ∈ post, taskTuple m t = none) ∧
          (¬ Readable m jTask → ∃ t ∈ pre, Unresolved m t) := by
  have hloop : Turn.loop (taskTurn m) jTaskLst = _ ↔ Turn.Harmless (taskTurn m) jTaskLst :=
    Turn.loop_eq_filterMap_iff jTaskLst
  simp only [Turn.Harmless, emitted_taskTurn, taskTurn_eq_stop, exists_error_iff] at hloop
  rw [GetAppModuleTaskLst_eq_loop]
  exact hloop

/-- A task for the actions, whose algorithm is not part of the shipped configuration. -/
def actionTask : Json :=
  .object [("alg_idx", .string "1"), ("data_src", .array []), ("end_time", .string "15:00:00"), ("idx", .string "2"),
    ("start_time", .string "11:00:00"), ("task_flag", .string "Action"), ("task_lst", .string "0")]

/-- Behind that task the one for the helmets is lost; in front of it it is taken. -/
theorem task_lost_behind_action :
    (GetAppModuleTaskLst idle.cfg.m_mapRuntimeSysCfg [actionTask, alarmTask]).map List.length = .ok 0 ∧
      (GetAppModuleTaskLst idle.cfg.m_mapRuntimeSysCfg [alarmTask, actionTask]).map List.length = .ok 1 ∧
      GetAppModuleTaskLst idle.cfg.m_mapRuntimeSysCfg [actionTask, alarmTask] ≠
        .ok ([actionTask, alarmTask].filterMap (taskTuple idle.cfg.m_mapRuntimeSysCfg)) := by
  have hnone : (GetAppModuleTaskLst idle.cfg.m_mapRuntimeSysCfg [actionTask, alarmTask]).map List.length =
      .ok 0 := by decide +kernel
  refine ⟨hnone, by decide +kernel, fun h => ?_⟩
  rw [h] at hnone
  exact absurd hnone (by decide +kernel)

end Perception.App
