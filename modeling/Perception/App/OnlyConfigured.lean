import Perception.App.CommSafe
import Perception.Cfg.SetGet
import Perception.Lib.History

/-!
# Only configured tasks act

The configuration manager with the application, over updates and detection results. What
an object may do is what its task was when it was last initialised, so it goes on after its
task is removed, disabled or given other sources, unless the object is initialised again.
-/
namespace Perception.App

set_option autoImplicit false

open Perception.Lib Perception.Cfg Perception.Db Perception.Alg History StateExcept

structure System where
  cfg : CfgMng
  app : CommSafeMng

inductive Event
  | update (c : Command)
  | result (strTopic strIp : String) (dets : List detection)

/-- Command 0x13 or 0x14. -/
def SetsTasks (c : Command) : Prop := c.u32Cmd = 0x13 ∨ c.u32Cmd = 0x14

instance (c : Command) : Decidable (SetsTasks c) := inferInstanceAs (Decidable (_ ∨ _))

namespace System

variable (exFactory : CfgObjMap)

/-- What is done on a result, by the objects that are attached to its topic. -/
def onResult (s : System) (strTopic strIp : String) (dets : List detection) : Traced (String × Action) Unit :=
  s.app.publish strIp dets (s.app.bus.SendReq strTopic)

/-- An accepted update starts the applications again. A result that throws ends the
program, as an update that throws does. -/
def step (s : System) : Event → Option System
  | .update c =>
    if SetsTasks c then
      match CfgMng.RecTcpProtocolMsg exFactory c s.cfg with
      | .ok _ cfg =>
        match s.app.StartAppModule cfg.m_mapRuntimeSysCfg with
        | .ok (_, app) => some ⟨cfg, app⟩
        | .error _ => none
      | .error _ _ => none
    else none
  | .result strTopic strIp dets => (s.onResult strTopic strIp dets).val.map fun _ => s

/-- The program has read its configuration and started the applications. -/
def Started (s : System) : Prop :=
  s.cfg.Parsed ∧ ∃ b, CommSafeMng.new.StartAppModule s.cfg.m_mapRuntimeSysCfg = .ok (b, s.app)

end System

/-- The times of a task differ. -/
def Enabled (jTask : Json) : Prop :=
  ∃ strStartTime strEndTime, jTask.attr strAttriStartTime = .ok strStartTime ∧
    jTask.attr strAttriEndTime = .ok strEndTime ∧ strStartTime ≠ strEndTime

/-- The type and the idx of a task, which name it. -/
def Named (jTask : Json) (strTask : String) : Prop :=
  ∃ strType strIdx, jTask.attr strAttriType = .ok strType ∧ jTask.attr strAttriIdx = .ok strIdx ∧
    strType ++ strIdx = strTask

/-- A source of the task, as its id is resolved, has the address. -/
def HasSource (m : CfgObjMap) (jTask : Json) (strIp : String) : Prop :=
  ∃ jDataSrc, jTask.child strAttriDataSrc = .ok jDataSrc ∧ ∃ elm ∈ jDataSrc.elems, ∃ strTransferId,
    elm.attr strAttriTransferId = .ok strTransferId ∧ ∃ DataSrc ∈ m.getList strTransferId,
      DataSrc.attr strAttriIp = .ok strIp

/-- The application node has the task, enabled, with the address among its sources. -/
def Configured (s : CfgMng) (strTask strIp : String) : Prop :=
  ∃ lst, (some strAppCommSafeNode, lst) ∈ (s.m_jRuntimeSysCfg.get strAppNode).items ∧ ∃ jTask ∈ lst.elems,
    Named jTask strTask ∧ Enabled jTask ∧ HasSource s.m_mapRuntimeSysCfg jTask strIp

/-- The task that something is done for: the flag in a row, else that of the object. -/
def taskOf : String × Action → String
  | (_, .insert row) => row.task_flag
  | (key, .nohelmet) => key

/-- What is done on a result is done for a configured task and source. -/
def OnlyConfigured (s : System) : Event → Prop
  | .update _ => True
  | .result strTopic strIp dets =>
    ∀ a ∈ (s.onResult strTopic strIp dets).log, Configured s.cfg (taskOf a) strIp

/-- The tasks that the applications are started with. -/
def startedTasks (m : CfgObjMap) : List TaskCfg :=
  match m.getFirst strAppNode, m.getFirst (strTransferNode ++ strTransferSouthTcpSvrNode) with
  | some AppCfg, some _ => AppCfg.items.flatMap fun it => (GetAppModuleTaskLst m it.2.elems).toOption.getD []
  | _, _ => []

/-- The key of the object that a task initialises, if it is a detection task. -/
def renewedKey (t : TaskCfg) : Option String :=
  match CommSafeMng.algKey t, CommSafeMng.taskKey t with
  | .ok strAlgIdx, .ok strTaskIdx =>
    if AlgCfgMap strDetectAlgTypeIdxValue = strAlgIdx then some strTaskIdx else none
  | _, _ => none

def renewedKeys (lst : List TaskCfg) : List String := lst.filterMap renewedKey

/-- An object can report an alert for the address: its task list names a class, and the
row can be made. -/
def CanReport (obj : CommSafeDetect) (strIp : String) : Prop :=
  (SortedMap.find? obj.m_mapDataSrc strIp).isSome ∧ ∃ n : Int32, toString n.toInt ∈ obj.m_lstStrTask ∧
    ∃ row, obj.alertRow strIp (toString n.toInt) = .ok row

/-- Each object there is gets renewed by the update, or all the sources that it can report
for are configured for its task afterwards. -/
def Renews (exFactory : CfgObjMap) (s : System) : Event → Prop
  | .update c => ∀ reply cfg, CfgMng.RecTcpProtocolMsg exFactory c s.cfg = .ok reply cfg →
    ∀ key obj, SortedMap.find? s.app.m_mapDetectShrPtr key = some obj →
      key ∈ renewedKeys (startedTasks cfg.m_mapRuntimeSysCfg) ∨
        ∀ strIp, CanReport obj strIp → Configured cfg key strIp
  | .result _ _ _ => True

namespace CommSafeDetect

variable {obj : CommSafeDetect} {strIp task : String} {dets : List detection}

/-- Only a text that names a class finds boxes. -/
theorem toString_of_DetectInference (h : (DetectInference dets task).isEmpty = false) : ∃ n : Int32, toString n.toInt = task := by
  obtain ⟨b, hb⟩ := List.exists_mem_of_ne_nil _ (List.isEmpty_eq_false_iff.mp h)
  obtain ⟨det, hdet, -⟩ := List.mem_map.mp hb
  have hsel := (List.mem_filter.mp hdet).2
  rw [Bool.and_eq_true, decide_eq_true_iff] at hsel
  exact ⟨det.sort_class, hsel.1.symm⟩

theorem alertRow_ok {row : DetectReport} (h : obj.alertRow strIp task = .ok row) (task' : String) :
    Named obj.m_jTaskCfg row.task_flag ∧ ∃ row', obj.alertRow strIp task' = .ok row' := by
  obtain ⟨strType, htype, h⟩ := except_bind_eq_ok.mp h
  obtain ⟨strIdx, hidx, h⟩ := except_bind_eq_ok.mp h
  obtain ⟨strSrcType, hsrctype, h⟩ := except_bind_eq_ok.mp h
  obtain ⟨strSrcIdx, hsrcidx, h⟩ := except_bind_eq_ok.mp h
  obtain ⟨strDesc, hdesc, h⟩ := except_bind_eq_ok.mp h
  cases h
  refine ⟨⟨strType, strIdx, htype, hidx, rfl⟩, ⟨strType ++ strIdx, strDetectAlgTypeIdxValue, task',
    strSrcType ++ strSrcIdx ++ ":" ++ strDesc⟩, ?_⟩
  unfold alertRow
  rw [htype, hidx]
  simp only [hsrctype, hsrcidx, hdesc]
  rfl

theorem saveAlert_cases (obj : CommSafeDetect) (strIp : String) (dets : List detection) (task : String) :
    (DetectInference dets task).isEmpty = true ∧ obj.saveAlert strIp dets task = pure () ∨
      (DetectInference dets task).isEmpty = false ∧
        ((∃ row, obj.alertRow strIp task = .ok row ∧ obj.saveAlert strIp dets task = .emit (.insert row)) ∨
          (∃ e, obj.alertRow strIp task = .error e) ∧ obj.saveAlert strIp dets task = .halt) := by
  unfold saveAlert
  cases hempty : (DetectInference dets task).isEmpty with
  | true => exact .inl ⟨rfl, rfl⟩
  | false =>
    refine .inr ⟨rfl, ?_⟩
    cases obj.alertRow strIp task with
    | ok row => exact .inl ⟨row, rfl, rfl⟩
    | error e => exact .inr ⟨⟨e, rfl⟩, rfl⟩

theorem canReport_of_alertRow (hsrc : (SortedMap.find? obj.m_mapDataSrc strIp).isSome) (hmem : task ∈ obj.m_lstStrTask)
    (hfound : (DetectInference dets task).isEmpty = false) {row : DetectReport}
    (hrow : obj.alertRow strIp task = .ok row) : CanReport obj strIp := by
  obtain ⟨n, rfl⟩ := toString_of_DetectInference hfound
  exact ⟨hsrc, n, hmem, row, hrow⟩

/-- A turn of the loop leaves at most a row, when there is one to report. -/
theorem row_of_mem_saveAlert {a : Action} (h : a ∈ (obj.saveAlert strIp dets task).log) :
    (DetectInference dets task).isEmpty = false ∧ ∃ row, obj.alertRow strIp task = .ok row ∧ a = .insert row := by
  rcases saveAlert_cases obj strIp dets task with ⟨-, heq⟩ | ⟨hfound, ⟨row, hrow, heq⟩ | ⟨-, heq⟩⟩
  · rw [heq] at h
    cases h
  · rw [heq] at h
    exact ⟨hfound, row, hrow, List.mem_singleton.mp h⟩
  · rw [heq] at h
    cases h

/-- The voice is for persons, whom the loop has reported before. -/
theorem canReport_of_bAlarm (hsrc : (SortedMap.find? obj.m_mapDataSrc strIp).isSome)
    (hval : (obj.m_lstStrTask.forM (obj.saveAlert strIp dets)).val = some ()) (halarm : obj.bAlarm dets = true) :
    CanReport obj strIp := by
  unfold bAlarm at halarm
  simp only [Bool.and_eq_true, List.contains_iff_mem, Bool.not_eq_true'] at halarm
  obtain ⟨⟨⟨hperson, -⟩, hfound⟩, -⟩ := halarm
  have hret := Traced.val_forM_eq_some.mp hval "0" hperson
  rcases saveAlert_cases obj strIp dets "0" with ⟨hempty, -⟩ | ⟨-, ⟨row, hrow, -⟩ | ⟨-, heq⟩⟩
  · rw [hfound] at hempty
    cases hempty
  · exact canReport_of_alertRow hsrc hperson hfound hrow
  · rw [heq] at hret
    cases hret

/-- Whatever an object does on a result, it can report for the address. -/
theorem canReport_of_mem_log {a : Action} (h : a ∈ (obj.ProResultMsg strIp dets).log) :
    CanReport obj strIp ∧ ∀ row, a = .insert row → Named obj.m_jTaskCfg row.task_flag := by
  unfold ProResultMsg at h
  cases hsrc : SortedMap.find? obj.m_mapDataSrc strIp with
  | none =>
    rw [hsrc] at h
    cases h
  | some DataSrc =>
    rw [hsrc] at h
    have hsome : (SortedMap.find? obj.m_mapDataSrc strIp).isSome = true := by
      rw [hsrc]
      rfl
    rcases Traced.mem_log_bind.mp h with hloop | ⟨_, hval, halarm⟩
    · obtain ⟨task, hmem, ha⟩ := Traced.mem_log_of_forM hloop
      obtain ⟨hfound, row, hrow, rfl⟩ := row_of_mem_saveAlert ha
      refine ⟨canReport_of_alertRow hsome hmem hfound hrow, fun row' heq => ?_⟩
      cases heq
      exact (alertRow_ok hrow task).1
    · split at halarm
      · next hb =>
        obtain rfl := List.mem_singleton.mp halarm
        exact ⟨canReport_of_bAlarm hsome hval hb, nofun⟩
      · cases halarm

/-- Where one class can be reported, no class stops the loop. -/
theorem val_saveAlert_of_canReport (h : CanReport obj strIp) (dets : List detection) (task : String) :
    (obj.saveAlert strIp dets task).val = some () := by
  obtain ⟨-, n, -, row, hrow⟩ := h
  rcases saveAlert_cases obj strIp dets task with ⟨-, heq⟩ | ⟨-, ⟨row', -, heq⟩ | ⟨⟨e, he⟩, -⟩⟩
  · rw [heq]
    rfl
  · rw [heq]
    rfl
  · obtain ⟨row', hrow'⟩ := (alertRow_ok hrow task).2
    rw [he] at hrow'
    cases hrow'

/-- One detection of the class makes an object that can report do so. -/
theorem mem_log_of_canReport (h : CanReport obj strIp) :
    ∃ dets row, (Action.insert row) ∈ (obj.ProResultMsg strIp dets).log ∧ Named obj.m_jTaskCfg row.task_flag := by
  have hreturn := val_saveAlert_of_canReport h
  obtain ⟨hsome, n, hmem, row, hrow⟩ := h
  have hnone : (SortedMap.find? obj.m_mapDataSrc strIp).isNone = false := by
    rw [← Option.not_isSome, hsome]
    rfl
  let dets : List detection := [⟨⟨0, 0, 0, 0⟩, n, true⟩]
  have hsave : Action.insert row ∈ (obj.saveAlert strIp dets (toString n.toInt)).log := by
    have hfound : (DetectInference dets (toString n.toInt)).isEmpty = false := by
      simp [dets, DetectInference]
    unfold saveAlert
    rw [hfound, hrow]
    exact List.mem_singleton_self _
  refine ⟨dets, row, ?_, (alertRow_ok hrow (toString n.toInt)).1⟩
  unfold ProResultMsg
  rw [hnone]
  exact Traced.mem_log_bind.mpr (.inl (Traced.mem_log_forM (fun task _ => hreturn dets task) hmem hsave))

end CommSafeDetect

theorem Named.eq {j : Json} {k k' : String} (h : Named j k) (h' : Named j k') : k = k' := by
  obtain ⟨t, i, ht, hi, rfl⟩ := h
  obtain ⟨t', i', ht', hi', rfl⟩ := h'
  rw [ht] at ht'
  rw [hi] at hi'
  cases ht'
  cases hi'
  rfl

namespace CommSafeMng

/-- An object is named by its task, and attached once, to the results of that task. -/
structure Linked (s : CommSafeMng) : Prop where
  named : ∀ k obj, SortedMap.find? s.m_mapDetectShrPtr k = some obj → Named obj.m_jTaskCfg k ∧ obj.m_ptrMsgBus = true
  bus : ∀ strTopic, (∃ k obj, SortedMap.find? s.m_mapDetectShrPtr k = some obj ∧ strTopic = k ++ strAlgResultCmd ∧
    s.bus.SendReq strTopic = [k]) ∨ s.bus.SendReq strTopic = []
  attached : ∀ k obj, SortedMap.find? s.m_mapDetectShrPtr k = some obj → s.bus.SendReq (k ++ strAlgResultCmd) = [k]

theorem Linked.new : Linked new where
  named k obj h := by cases h
  bus strTopic := .inr rfl
  attached k obj h := by cases h

/-- What is done on a result, the object of the topic does. -/
theorem Linked.mem_log_iff {s : CommSafeMng} (h : Linked s) {strTopic strIp : String} {dets : List detection}
    {key : String} {a : Action} :
    (key, a) ∈ (s.publish strIp dets (s.bus.SendReq strTopic)).log ↔ ∃ obj,
      SortedMap.find? s.m_mapDetectShrPtr key = some obj ∧ strTopic = key ++ strAlgResultCmd ∧
        a ∈ (obj.ProResultMsg strIp dets).log := by
  have hone : ∀ k obj, SortedMap.find? s.m_mapDetectShrPtr k = some obj → s.bus.SendReq strTopic = [k] →
      ((key, a) ∈ (s.publish strIp dets (s.bus.SendReq strTopic)).log ↔
        key = k ∧ a ∈ (obj.ProResultMsg strIp dets).log) := by
    intro k obj hobj hsend
    rw [hsend, publish, hobj]
    refine Traced.mem_log_bind.trans ⟨fun hmem => ?_, fun hmem => .inl ?_⟩
    · rcases hmem with hmem | ⟨_, _, hmem⟩
      · obtain ⟨a', ha', heq⟩ := List.mem_map.mp hmem
        cases heq
        exact ⟨rfl, ha'⟩
      · cases hmem
    · obtain ⟨rfl, ha⟩ := hmem
      exact List.mem_map.mpr ⟨a, ha, rfl⟩
  constructor
  · intro hmem
    rcases h.bus strTopic with ⟨k, obj, hobj, htopic, hsend⟩ | hnil
    · obtain ⟨rfl, ha⟩ := (hone k obj hobj hsend).mp hmem
      exact ⟨obj, hobj, htopic, ha⟩
    · rw [hnil] at hmem
      cases hmem
  · intro ⟨obj, hobj, htopic, ha⟩
    subst htopic
    exact (hone key obj hobj (h.attached key obj hobj)).mpr ⟨rfl, ha⟩

end CommSafeMng

/-- No object can report for an address that is not configured for its task. -/
def NoStale (s : System) : Prop :=
  ∀ key obj, SortedMap.find? s.app.m_mapDetectShrPtr key = some obj → ∀ strIp, CanReport obj strIp →
    Configured s.cfg key strIp

/-- Whatever results come, only configured tasks act, exactly when no object is stale. -/
theorem onlyConfigured_iff {s : System} (h : s.app.Linked) : (∀ e, OnlyConfigured s e) ↔ NoStale s := by
  constructor
  · intro honly key obj hobj strIp hcan
    obtain ⟨dets, row, hmem, hnamed⟩ := CommSafeDetect.mem_log_of_canReport hcan
    have hcfg := honly (.result (key ++ strAlgResultCmd) strIp dets) (key, .insert row)
      (h.mem_log_iff.mpr ⟨obj, hobj, rfl, hmem⟩)
    rwa [taskOf, hnamed.eq (h.named key obj hobj).1] at hcfg
  · intro hstale e
    cases e with
    | update c => trivial
    | result strTopic strIp dets =>
      intro ⟨key, a⟩ hmem
      obtain ⟨obj, hobj, -, ha⟩ := h.mem_log_iff.mp hmem
      obtain ⟨hcan, hflag⟩ := CommSafeDetect.canReport_of_mem_log ha
      have hcfg := hstale key obj hobj strIp hcan
      cases a with
      | nohelmet => exact hcfg
      | insert row =>
        rw [taskOf, (hflag row rfl).eq (h.named key obj hobj).1]
        exact hcfg

/-- What an object is made from: its task, with the sources of it. -/
structure Made (obj : CommSafeDetect) (t : TaskCfg) : Prop where
  task : obj.m_jTaskCfg = t.taskCfg
  attached : obj.m_ptrMsgBus = true
  sources : ∀ strIp DataSrc, SortedMap.find? obj.m_mapDataSrc strIp = some DataSrc →
    DataSrc ∈ t.vecDataSrc ∧ DataSrc.attr strAttriIp = .ok strIp

theorem constAttr_eq_ok {j : Json} {k v : String} : constAttr j k = .ok v ↔ j.attr k = .ok v := by
  rw [Json.attr_eq_ok]
  unfold constAttr
  rw [except_bind_eq_ok]
  constructor
  · intro ⟨w, hw, hv⟩
    cases w with
    | string s =>
      cases hv
      exact Json.constChild_eq_ok.mp hw
    | _ => cases hv
  · intro h
    exact ⟨.string v, Json.constChild_eq_ok.mpr h, rfl⟩

namespace CommSafeDetect

theorem dataSrcMap_ok {m m' : List (String × Json)} {vecDataSrc : List Json} (h : dataSrcMap m vecDataSrc = .ok m')
    {strIp : String} {DataSrc : Json} (hfind : SortedMap.find? m' strIp = some DataSrc) :
    SortedMap.find? m strIp = some DataSrc ∨ DataSrc ∈ vecDataSrc ∧ DataSrc.attr strAttriIp = .ok strIp := by
  induction vecDataSrc generalizing m with
  | nil =>
    cases h
    exact .inl hfind
  | cons src vecDataSrc ih =>
    obtain ⟨strIpKey, hkey, h⟩ := except_bind_eq_ok.mp h
    rcases ih h with hm | ⟨hmem, hip⟩
    · rw [SortedMap.find?_emplace, Option.or_eq_some_iff] at hm
      rcases hm with hm | ⟨-, hsrc⟩
      · exact .inl hm
      · by_cases hip : strIp = strIpKey
        · rw [if_pos hip] at hsrc
          cases hsrc
          subst hip
          exact .inr ⟨List.mem_cons_self, constAttr_eq_ok.mp hkey⟩
        · rw [if_neg hip] at hsrc
          cases hsrc
    · exact .inr ⟨List.mem_cons_of_mem src hmem, hip⟩

theorem Init_ok {obj obj' : CommSafeDetect} {t : TaskCfg} {topics : List String} (h : obj.Init t = .ok (obj', topics)) :
    Made obj' t ∧ if obj.m_ptrMsgBus then topics = [] else ∃ k, Named t.taskCfg k ∧ topics = [k ++ strAlgResultCmd] := by
  obtain ⟨strTaskLst, -, h⟩ := except_bind_eq_ok.mp h
  obtain ⟨topics', htopics, h⟩ := except_bind_eq_ok.mp h
  obtain ⟨m_mapDataSrc, hmap, h⟩ := except_bind_eq_ok.mp h
  obtain ⟨_, -, h⟩ := except_bind_eq_ok.mp h
  obtain ⟨_, -, h⟩ := except_bind_eq_ok.mp h
  cases h
  refine ⟨⟨rfl, rfl, fun strIp DataSrc hfind => ?_⟩, ?_⟩
  · rcases dataSrcMap_ok hmap hfind with hnil | hmem
    · cases hnil
    · exact hmem
  · unfold caclResultTopic at htopics
    cases hbus : obj.m_ptrMsgBus with
    | true =>
      rw [hbus] at htopics
      cases htopics
      rfl
    | false =>
      rw [hbus] at htopics
      obtain ⟨strType, htype, htopics⟩ := except_bind_eq_ok.mp htopics
      obtain ⟨strIdx, hidx, htopics⟩ := except_bind_eq_ok.mp htopics
      cases htopics
      exact ⟨strType ++ strIdx, ⟨strType, strIdx, constAttr_eq_ok.mp htype, constAttr_eq_ok.mp hidx, rfl⟩, rfl⟩

end CommSafeDetect

theorem taskKey_eq_ok {t : TaskCfg} {k : String} : CommSafeMng.taskKey t = .ok k ↔ Named t.taskCfg k := by
  unfold CommSafeMng.taskKey Named
  rw [except_bind_eq_ok]
  constructor
  · intro ⟨strType, htype, h⟩
    obtain ⟨strIdx, hidx, h⟩ := except_bind_eq_ok.mp h
    cases h
    exact ⟨strType, strIdx, htype, hidx, rfl⟩
  · intro ⟨strType, strIdx, htype, hidx, hk⟩
    exact ⟨strType, htype, except_bind_eq_ok.mpr ⟨strIdx, hidx, congrArg Except.ok hk⟩⟩

/-- The objects after a start with these tasks: the last task of a key has made its
object, and the others are as before. -/
def Renewed (lst : List TaskCfg) (s s' : CommSafeMng) : Prop :=
  ∀ k, (k ∉ renewedKeys lst ∧ SortedMap.find? s'.m_mapDetectShrPtr k = SortedMap.find? s.m_mapDetectShrPtr k) ∨
    (k ∈ renewedKeys lst ∧ ∃ t ∈ lst, Named t.taskCfg k ∧ ∃ obj,
      SortedMap.find? s'.m_mapDetectShrPtr k = some obj ∧ Made obj t)

theorem Renewed.refl (s : CommSafeMng) : Renewed [] s s := fun _ => .inl ⟨List.not_mem_nil, rfl⟩

theorem renewedKeys_append (l l' : List TaskCfg) : renewedKeys (l ++ l') = renewedKeys l ++ renewedKeys l' := by
  exact List.filterMap_append

theorem Renewed.trans {l l' : List TaskCfg} {s s₁ s' : CommSafeMng} (h : Renewed l s s₁) (h' : Renewed l' s₁ s') :
    Renewed (l ++ l') s s' := by
  intro k
  rw [renewedKeys_append, List.mem_append]
  rcases h' k with ⟨hk', heq'⟩ | ⟨hk', t, ht, hnamed, hobj⟩
  · rcases h k with ⟨hk, heq⟩ | ⟨hk, t, ht, hnamed, obj, hobj, hmade⟩
    · exact .inl ⟨fun hmem => hmem.elim hk hk', heq'.trans heq⟩
    · exact .inr ⟨.inl hk, t, List.mem_append_left _ ht, hnamed, obj, heq'.trans hobj, hmade⟩
  · exact .inr ⟨.inr hk', t, List.mem_append_right _ ht, hnamed, hobj⟩

namespace CommSafeMng

/-- One task: a detection task makes its object again, any other leaves all. -/
theorem initTask_ok {s s' : CommSafeMng} {t : TaskCfg} (h : initTask s t = .ok s') :
    (renewedKeys [t] = [] ∧ s' = s) ∨ ∃ k obj topics, renewedKeys [t] = [k] ∧ Named t.taskCfg k ∧
      ((SortedMap.find? s.m_mapDetectShrPtr k).getD .new).Init t = .ok (obj, topics) ∧ s' = { s with
        m_mapDetectShrPtr := SortedMap.insert s.m_mapDetectShrPtr k obj
        bus := topics.foldl (fun bus topic => bus.Attach k topic) s.bus } := by
  obtain ⟨strAlgIdx, halg, h⟩ := except_bind_eq_ok.mp h
  obtain ⟨k, hkey, h⟩ := except_bind_eq_ok.mp h
  have hkey' : renewedKey t = if AlgCfgMap strDetectAlgTypeIdxValue = strAlgIdx then some k else none := by
    unfold renewedKey
    rw [halg, hkey]
  by_cases heq : AlgCfgMap strDetectAlgTypeIdxValue = strAlgIdx
  · rw [if_pos heq] at h hkey'
    obtain ⟨⟨obj, topics⟩, hinit, h⟩ := except_bind_eq_ok.mp h
    cases h
    exact .inr ⟨k, obj, topics, List.filterMap_cons_some hkey', taskKey_eq_ok.mp hkey, hinit, rfl⟩
  · rw [if_neg heq] at h hkey'
    cases h
    exact .inl ⟨List.filterMap_cons_none hkey', rfl⟩

theorem initTask_renewed {s s' : CommSafeMng} {t : TaskCfg} (h : initTask s t = .ok s') : Renewed [t] s s' := by
  intro k
  rcases initTask_ok h with ⟨hkeys, rfl⟩ | ⟨k', obj, topics, hkeys, hnamed, hinit, rfl⟩
  · rw [hkeys]
    exact .inl ⟨List.not_mem_nil, rfl⟩
  · rw [hkeys, List.mem_singleton, SortedMap.find?_insert]
    by_cases hk : k = k'
    · subst hk
      rw [if_pos rfl]
      exact .inr ⟨rfl, t, List.mem_singleton_self t, hnamed, obj, rfl, (CommSafeDetect.Init_ok hinit).1⟩
    · rw [if_neg hk]
      exact .inl ⟨hk, rfl⟩

theorem topic_injective {k k' : String} (h : k ++ strAlgResultCmd = k' ++ strAlgResultCmd) : k = k' := by
  have hlist := congrArg String.toList h
  rw [String.toList_append, String.toList_append] at hlist
  exact String.toList_inj.mp (List.append_cancel_right hlist)

/-- After an `Init` the results of the task go to its object alone, all others as before. -/
theorem Linked.SendReq_attached {s : CommSafeMng} (hs : s.Linked) {t : TaskCfg} {k : String} {obj : CommSafeDetect}
    {topics : List String} (hnamed : Named t.taskCfg k)
    (hinit : ((SortedMap.find? s.m_mapDetectShrPtr k).getD .new).Init t = .ok (obj, topics)) (strTopic : String) :
    (topics.foldl (fun bus topic => bus.Attach k topic) s.bus).SendReq strTopic =
      if strTopic = k ++ strAlgResultCmd then [k] else s.bus.SendReq strTopic := by
  have htopics := (CommSafeDetect.Init_ok hinit).2
  cases hold : SortedMap.find? s.m_mapDetectShrPtr k with
  | some old =>
    rw [hold, Option.getD_some, (hs.named k old hold).2, if_pos rfl] at htopics
    rw [htopics, List.foldl_nil]
    by_cases htopic : strTopic = k ++ strAlgResultCmd
    · rw [if_pos htopic, htopic, hs.attached k old hold]
    · rw [if_neg htopic]
  | none =>
    rw [hold, Option.getD_none] at htopics
    obtain ⟨k', hk', htopics⟩ := htopics
    obtain rfl := hnamed.eq hk'
    rw [htopics, List.foldl_cons, List.foldl_nil, MessageBus.SendReq_Attach]
    by_cases htopic : strTopic = k ++ strAlgResultCmd
    · rw [if_pos htopic.symm, if_pos htopic]
      rcases hs.bus strTopic with ⟨k', old, hobj', htopic', -⟩ | hnil
      · obtain rfl := topic_injective (htopic.symm.trans htopic')
        rw [hold] at hobj'
        cases hobj'
      · rw [hnil]
        rfl
    · rw [if_neg fun heq => htopic heq.symm, if_neg htopic]

/-- An object that is put in under its name, and its topic attached to it. -/
theorem Linked.insert {s : CommSafeMng} (hs : s.Linked) {k : String} {obj : CommSafeDetect} {bus : MessageBus String String}
    (hobj : Named obj.m_jTaskCfg k ∧ obj.m_ptrMsgBus = true)
    (hsend : ∀ strTopic, bus.SendReq strTopic =
      if strTopic = k ++ strAlgResultCmd then [k] else s.bus.SendReq strTopic) :
    Linked { s with m_mapDetectShrPtr := SortedMap.insert s.m_mapDetectShrPtr k obj, bus := bus } := by
  have hfind : ∀ k', SortedMap.find? (SortedMap.insert s.m_mapDetectShrPtr k obj) k' =
      if k' = k then some obj else SortedMap.find? s.m_mapDetectShrPtr k' := SortedMap.find?_insert _ _ _
  constructor
  · intro k' obj' hobj'
    rw [hfind] at hobj'
    by_cases hk : k' = k
    · rw [if_pos hk] at hobj'
      cases hobj'
      rw [hk]
      exact hobj
    · rw [if_neg hk] at hobj'
      exact hs.named k' obj' hobj'
  · intro strTopic
    show (∃ k' obj', _ ∧ _ ∧ bus.SendReq strTopic = [k']) ∨ bus.SendReq strTopic = []
    rw [hsend]
    by_cases htopic : strTopic = k ++ strAlgResultCmd
    · rw [if_pos htopic]
      exact .inl ⟨k, obj, (hfind k).trans (if_pos rfl), htopic, rfl⟩
    · rw [if_neg htopic]
      rcases hs.bus strTopic with ⟨k', obj', hobj', htopic', hsend'⟩ | hnil
      · have hne : k' ≠ k := fun heq => htopic (heq ▸ htopic')
        exact .inl ⟨k', obj', (hfind k').trans ((if_neg hne).trans hobj'), htopic', hsend'⟩
      · exact .inr hnil
  · intro k' obj' hobj'
    show bus.SendReq _ = [k']
    rw [hsend]
    rw [hfind] at hobj'
    by_cases hk : k' = k
    · rw [hk, if_pos rfl]
    · rw [if_neg hk] at hobj'
      rw [if_neg fun heq => hk (topic_injective heq)]
      exact hs.attached k' obj' hobj'

theorem initTask_linked {s s' : CommSafeMng} {t : TaskCfg} (hs : s.Linked) (h : initTask s t = .ok s') :
    s'.Linked := by
  rcases initTask_ok h with ⟨-, rfl⟩ | ⟨k, obj, topics, -, hnamed, hinit, rfl⟩
  · exact hs
  · have hmade := (CommSafeDetect.Init_ok hinit).1
    exact hs.insert ⟨hmade.task ▸ hnamed, hmade.attached⟩ (hs.SendReq_attached hnamed hinit)

theorem foldlM_initTask_ok {s s' : CommSafeMng} {lst : List TaskCfg} (h : lst.foldlM initTask s = .ok s') :
    Renewed lst s s' ∧ (s.Linked → s'.Linked) := by
  induction lst generalizing s with
  | nil =>
    cases h
    exact ⟨.refl _, id⟩
  | cons t lst ih =>
    rw [List.foldlM_cons] at h
    obtain ⟨s₁, h₁, h⟩ := except_bind_eq_ok.mp h
    obtain ⟨hrenewed, hlinked⟩ := ih h
    exact ⟨(initTask_renewed h₁).trans hrenewed, fun hs => hlinked (initTask_linked hs h₁)⟩

theorem InitParams_ok {southCfg : Json} {lst : List TaskCfg} {s s' : CommSafeMng}
    (h : InitParams southCfg lst s = .ok s') : Renewed lst s s' ∧ (s.Linked → s'.Linked) := by
  obtain ⟨_, -, h⟩ := except_bind_eq_ok.mp h
  obtain ⟨hrenewed, hlinked⟩ := foldlM_initTask_ok h
  exact ⟨hrenewed, fun hs => hlinked ⟨hs.named, hs.bus, hs.attached⟩⟩

/-- The tasks of one member of the application node. -/
def appTasks (m : CfgObjMap) (it : Option String × Json) : List TaskCfg :=
  (GetAppModuleTaskLst m it.2.elems).toOption.getD []

theorem startApp_ok {m : CfgObjMap} {southCfg : Json} {s s' : CommSafeMng} {it : Option String × Json}
    (h : startApp m southCfg s it = .ok s') : it.1 = some strAppCommSafeNode ∧
      GetAppModuleTaskLst m it.2.elems = .ok (appTasks m it) ∧ Renewed (appTasks m it) s s' ∧
        (s.Linked → s'.Linked) := by
  obtain ⟨strAppName, hname, h⟩ := except_bind_eq_ok.mp h
  obtain ⟨lst, hlst, h⟩ := except_bind_eq_ok.mp h
  have hit : it.1 = some strAppName := by
    cases hkey : it.1 with
    | none =>
      rw [hkey] at hname
      cases hname
    | some k =>
      rw [hkey] at hname
      cases hname
      rfl
  have htasks : appTasks m it = lst := by
    unfold appTasks
    rw [hlst]
    rfl
  rw [htasks]
  by_cases happ : strAppName = strAppCommSafeNode
  · rw [if_pos happ] at h
    obtain ⟨hrenewed, hlinked⟩ := InitParams_ok h
    exact ⟨happ ▸ hit, hlst, hrenewed, hlinked⟩
  · rw [if_neg happ] at h
    cases h

theorem foldlM_startApp_ok {m : CfgObjMap} {southCfg : Json} {its : List (Option String × Json)}
    {s s' : CommSafeMng} (h : its.foldlM (startApp m southCfg) s = .ok s') :
    (∀ it ∈ its, it.1 = some strAppCommSafeNode ∧ GetAppModuleTaskLst m it.2.elems = .ok (appTasks m it)) ∧
      Renewed (its.flatMap (appTasks m)) s s' ∧ (s.Linked → s'.Linked) := by
  induction its generalizing s with
  | nil =>
    cases h
    exact ⟨nofun, .refl _, id⟩
  | cons it its ih =>
    rw [List.foldlM_cons] at h
    obtain ⟨s₁, h₁, h⟩ := except_bind_eq_ok.mp h
    obtain ⟨hit, hlst, hrenewed₁, hlinked₁⟩ := startApp_ok h₁
    obtain ⟨hits, hrenewed, hlinked⟩ := ih h
    rw [List.flatMap_cons]
    exact ⟨List.forall_mem_cons.mpr ⟨⟨hit, hlst⟩, hits⟩, hrenewed₁.trans hrenewed, hlinked ∘ hlinked₁⟩

theorem StartAppModule_ok {m : CfgObjMap} {s s' : CommSafeMng} {b : Bool} (h : s.StartAppModule m = .ok (b, s')) :
    Renewed (startedTasks m) s s' ∧ (s.Linked → s'.Linked) ∧ ∀ t ∈ startedTasks m, ∃ AppCfg,
      m.getFirst strAppNode = some AppCfg ∧ (∀ it ∈ AppCfg.items, it.1 = some strAppCommSafeNode) ∧
        ∃ it ∈ AppCfg.items, ∃ lst, GetAppModuleTaskLst m it.2.elems = .ok lst ∧ t ∈ lst := by
  unfold StartAppModule at h
  unfold startedTasks
  cases happ : m.getFirst strAppNode with
  | none =>
    rw [happ] at h
    cases h
    exact ⟨.refl _, id, nofun⟩
  | some AppCfg =>
    cases hsouth : m.getFirst (strTransferNode ++ strTransferSouthTcpSvrNode) with
    | none =>
      rw [happ, hsouth] at h
      cases h
      exact ⟨.refl _, id, nofun⟩
    | some SouthTcpSvrCfg =>
      rw [happ, hsouth] at h
      obtain ⟨s₁, hfold, h⟩ := except_bind_eq_ok.mp h
      cases h
      obtain ⟨hits, hrenewed, hlinked⟩ := foldlM_startApp_ok hfold
      refine ⟨hrenewed, hlinked, fun t ht => ⟨AppCfg, rfl, fun it hit => (hits it hit).1, ?_⟩⟩
      obtain ⟨it, hit, ht⟩ := List.mem_flatMap.mp ht
      exact ⟨it, hit, appTasks m it, (hits it hit).2, ht⟩

end CommSafeMng

theorem read_key (j : Json) (k : String) : (j.read [.key k]).1 = j.child k := by
  cases j <;> rfl

/-- A started task comes from an enabled one, with the sources that its ids are resolved
to. -/
structure Resolved (m : CfgObjMap) (jTask : Json) (t : TaskCfg) : Prop where
  task : t.taskCfg = (jTask.read [.key strAttriDataSrc]).2
  enabled : Enabled jTask
  sources : ∃ jDataSrc, jTask.child strAttriDataSrc = .ok jDataSrc ∧
    collect (dataSrcCfgs m) jDataSrc.elems = .ok t.vecDataSrc

theorem GetAppModuleTaskLst_mem {m : CfgObjMap} {jTaskLst : List Json} {lst : List TaskCfg}
    (h : GetAppModuleTaskLst m jTaskLst = .ok lst) {t : TaskCfg} (ht : t ∈ lst) :
    ∃ jTask ∈ jTaskLst, Resolved m jTask t := by
  induction jTaskLst generalizing lst with
  | nil =>
    cases h
    cases ht
  | cons jTask jTaskLst ih =>
    obtain ⟨strStartTime, hstart, h⟩ := except_bind_eq_ok.mp h
    obtain ⟨strEndTime, hend, h⟩ := except_bind_eq_ok.mp h
    have hrest : ∀ {lst : List TaskCfg}, GetAppModuleTaskLst m jTaskLst = .ok lst → t ∈ lst →
        ∃ j ∈ jTask :: jTaskLst, Resolved m j t := by
      intro lst h ht
      obtain ⟨j, hj, hres⟩ := ih h ht
      exact ⟨j, List.mem_cons_of_mem jTask hj, hres⟩
    by_cases htimes : strStartTime = strEndTime
    · rw [if_pos htimes] at h
      exact hrest h ht
    · rw [if_neg htimes] at h
      obtain ⟨strAlgIdx, -, h⟩ := except_bind_eq_ok.mp h
      cases halg : m.getFirst (AlgCfgMap strAlgIdx) with
      | none =>
        rw [halg] at h
        cases h
        cases ht
      | some algCfg =>
        rw [halg] at h
        obtain ⟨jDataSrc, hread, h⟩ := except_bind_eq_ok.mp h
        obtain ⟨vecDataSrcCfg, hvec, h⟩ := except_bind_eq_ok.mp h
        obtain ⟨lst', hlst, h⟩ := except_bind_eq_ok.mp h
        cases h
        rcases List.mem_cons.mp ht with rfl | ht
        · rw [read_key] at hread
          have henabled : Enabled jTask := ⟨strStartTime, strEndTime, hstart, hend, htimes⟩
          exact ⟨jTask, List.mem_cons_self, rfl, henabled, jDataSrc, hread, hvec⟩
        · exact hrest hlst ht

theorem Named.of_read {jTask : Json} {k : String} (h : Named (jTask.read [.key strAttriDataSrc]).2 k) :
    Named jTask k := by
  have hattr : ∀ {a v : String}, a ≠ strAttriDataSrc → (jTask.read [.key strAttriDataSrc]).2.attr a = .ok v →
      jTask.attr a = .ok v := by
    intro a v hne ha
    rw [Json.attr_eq_ok] at ha ⊢
    exact (Json.onPath_find?_of_ne _ hne [] jTask).symm.trans ha
  obtain ⟨strType, strIdx, htype, hidx, hk⟩ := h
  exact ⟨strType, strIdx, hattr (by decide) htype, hattr (by decide) hidx, hk⟩

/-- The application node of the lookup map, when all its members are applications. -/
theorem getFirst_app {s : CfgMng} (hs : s.Parsed) {AppCfg : Json}
    (h : s.m_mapRuntimeSysCfg.getFirst strAppNode = some AppCfg)
    (hkeys : ∀ it ∈ AppCfg.items, it.1 = some strAppCommSafeNode) : AppCfg = s.m_jRuntimeSysCfg.get strAppNode := by
  obtain ⟨-, hnodes⟩ := ParseJson_ok hs strAppNode (by decide)
  have hentry : isEntry AppCfg = false := by
    unfold isEntry
    split
    · next strType htype =>
      cases AppCfg with
      | object members =>
        have hit : (some strAttriType, Json.string strType) ∈ (Json.object members).items :=
          List.mem_map.mpr ⟨_, SortedMap.mem_of_find? htype, rfl⟩
        exact absurd (Option.some.inj (hkeys _ hit)) (show strAttriType ≠ strAppCommSafeNode by decide)
      | _ => cases htype
    · rfl
  have hmem : AppCfg ∈ s.m_mapRuntimeSysCfg.nodesAt strAppNode := by
    apply List.mem_filter.mpr
    exact ⟨List.mem_of_mem_head? h, by rw [hentry]; rfl⟩
  rw [hnodes] at hmem
  exact List.mem_singleton.mp hmem

/-- An object that was just made reports for configured sources only. -/
theorem configured_of_made {s : CfgMng} (hs : s.Parsed) {t : TaskCfg} {AppCfg : Json}
    (happ : s.m_mapRuntimeSysCfg.getFirst strAppNode = some AppCfg)
    (hkeys : ∀ it ∈ AppCfg.items, it.1 = some strAppCommSafeNode) {it : Option String × Json}
    (hit : it ∈ AppCfg.items) {lst : List TaskCfg}
    (hlst : GetAppModuleTaskLst s.m_mapRuntimeSysCfg it.2.elems = .ok lst) (ht : t ∈ lst) {key : String}
    (hnamed : Named t.taskCfg key) {obj : CommSafeDetect} (hmade : Made obj t) {strIp : String}
    (hcan : CanReport obj strIp) : Configured s key strIp := by
  obtain rfl := getFirst_app hs happ hkeys
  obtain ⟨jTask, hmem, hres⟩ := GetAppModuleTaskLst_mem hlst ht
  obtain ⟨jDataSrc, hchild, hvec⟩ := hres.sources
  obtain ⟨DataSrc, hsrc⟩ := Option.isSome_iff_exists.mp hcan.1
  obtain ⟨hin, hip⟩ := hmade.sources strIp DataSrc hsrc
  obtain ⟨elm, helm, srcs, hsrcs, hsrcmem⟩ := mem_of_collect hvec hin
  obtain ⟨strTransferId, hid, hpure⟩ := except_bind_eq_ok.mp hsrcs
  cases hpure
  refine ⟨it.2, ?_, jTask, hmem, ?_, hres.enabled, jDataSrc, hchild, elm, helm, strTransferId, hid, DataSrc, hsrcmem,
    hip⟩
  · have hpair : it = (some strAppCommSafeNode, it.2) := Prod.ext (hkeys it hit) rfl
    exact hpair ▸ hit
  · rw [hres.task] at hnamed
    exact hnamed.of_read

/-- The configuration after an accepted update is the source of its lookup map. -/
theorem parsed_of_update {exFactory : CfgObjMap} {c : Command} (hc : SetsTasks c) {cfg cfg' : CfgMng}
    {reply : Option Json} (h : CfgMng.RecTcpProtocolMsg exFactory c cfg = .ok reply cfg') : cfg'.Parsed := by
  obtain ⟨r, body, hupdate⟩ : ∃ r body, c.update = some (r, body) := by
    unfold Command.update
    rcases hc with hc | hc
    · rw [hc]
      exact ⟨_, _, rfl⟩
    · rw [hc]
      exact ⟨_, _, rfl⟩
  obtain ⟨-, j, -, hupd⟩ := CfgMng.update_inv hupdate h
  obtain ⟨-, -, s₂, -, -, hparsed, -, -, hdb⟩ := CfgMng.RuntimeSysCfgUpdate_ok hupd
  obtain ⟨hcfg, hmap⟩ := CfgMng.stateOf_updateDb_cfg exFactory r s₂
  rw [hdb] at hcfg hmap
  unfold CfgMng.Parsed
  rw [show cfg'.m_jRuntimeSysCfg = s₂.m_jRuntimeSysCfg from hcfg,
    show cfg'.m_mapRuntimeSysCfg = s₂.m_mapRuntimeSysCfg from hmap]
  exact hparsed

/-- What holds between two steps. -/
structure Sound (s : System) : Prop where
  parsed : s.cfg.Parsed
  linked : s.app.Linked
  fresh : NoStale s

/-- After a start, no object is stale exactly when those that were not made again can
report for nothing that is not configured. -/
theorem noStale_iff {cfg : CfgMng} (hcfg : cfg.Parsed) {s s' : CommSafeMng} {b : Bool}
    (h : s.StartAppModule cfg.m_mapRuntimeSysCfg = .ok (b, s')) :
    NoStale ⟨cfg, s'⟩ ↔ ∀ key obj, SortedMap.find? s.m_mapDetectShrPtr key = some obj →
      key ∈ renewedKeys (startedTasks cfg.m_mapRuntimeSysCfg) ∨ ∀ strIp, CanReport obj strIp → Configured cfg key strIp := by
  obtain ⟨hrenewed, -, htasks⟩ := CommSafeMng.StartAppModule_ok h
  constructor
  · intro hstale key obj hobj
    rcases hrenewed key with ⟨-, heq⟩ | ⟨hkey, -⟩
    · exact .inr (hstale key obj (heq.trans hobj))
    · exact .inl hkey
  · intro hrenews key obj hobj strIp hcan
    rcases hrenewed key with ⟨hkey, heq⟩ | ⟨-, t, ht, hnamed, obj', hobj', hmade⟩
    · exact (hrenews key obj (heq.symm.trans hobj)).resolve_left hkey strIp hcan
    · have hsame : obj' = obj := Option.some.inj (hobj'.symm.trans hobj)
      obtain ⟨AppCfg, happ, hkeys, it, hit, lst, hlst, hmem⟩ := htasks t ht
      exact configured_of_made hcfg happ hkeys hit hlst hmem hnamed (hsame ▸ hmade) hcan

theorem Started.sound {s : System} (h : s.Started) : Sound s := by
  obtain ⟨hparsed, b, hstart⟩ := h
  obtain ⟨-, hlinked, -⟩ := CommSafeMng.StartAppModule_ok hstart
  exact ⟨hparsed, hlinked .new, (noStale_iff hparsed hstart).mpr nofun⟩

theorem step_update {exFactory : CfgObjMap} {s s' : System} {c : Command}
    (h : s.step exFactory (.update c) = some s') : SetsTasks c ∧ ∃ reply b,
      CfgMng.RecTcpProtocolMsg exFactory c s.cfg = .ok reply s'.cfg ∧
        s.app.StartAppModule s'.cfg.m_mapRuntimeSysCfg = .ok (b, s'.app) := by
  by_cases hc : SetsTasks c
  · simp only [System.step, if_pos hc] at h
    cases hcmd : CfgMng.RecTcpProtocolMsg exFactory c s.cfg with
    | error e cfg =>
      rw [hcmd] at h
      cases h
    | ok reply cfg =>
      rw [hcmd] at h
      dsimp only at h
      cases hstart : s.app.StartAppModule cfg.m_mapRuntimeSysCfg with
      | error e =>
        rw [hstart] at h
        cases h
      | ok r =>
        rw [hstart] at h
        cases h
        exact ⟨hc, reply, r.1, rfl, hstart⟩
  · simp only [System.step, if_neg hc] at h
    cases h

theorem step_result {exFactory : CfgObjMap} {s s' : System} {strTopic strIp : String} {dets : List detection}
    (h : s.step exFactory (.result strTopic strIp dets) = some s') : s' = s := by
  obtain ⟨_, -, heq⟩ := Option.map_eq_some_iff.mp h
  exact heq.symm

/-- A step leaves no object stale exactly when it renews. -/
theorem renews_iff {exFactory : CfgObjMap} {s s' : System} (hs : Sound s) (e : Event)
    (h : s.step exFactory e = some s') :
    (Renews exFactory s e ↔ NoStale s') ∧ s'.cfg.Parsed ∧ s'.app.Linked := by
  cases e with
  | result strTopic strIp dets =>
    obtain rfl := step_result h
    exact ⟨iff_of_true trivial hs.fresh, hs.parsed, hs.linked⟩
  | update c =>
    obtain ⟨hc, reply, b, hcmd, hstart⟩ := step_update h
    have hparsed := parsed_of_update hc hcmd
    obtain ⟨-, hlinked, -⟩ := CommSafeMng.StartAppModule_ok hstart
    refine ⟨?_, hparsed, hlinked hs.linked⟩
    rw [noStale_iff hparsed hstart]
    constructor
    · intro hrenews
      exact hrenews reply s'.cfg hcmd
    · intro hrenews reply' cfg hcmd'
      rw [hcmd] at hcmd'
      cases hcmd'
      exact hrenews

/-- **Only configured tasks act**, whatever results come in any state of the run, exactly
when each update of the run renews the objects that there are, but for those that can
report for configured sources only. -/
theorem only_configured_act_iff {exFactory : CfgObjMap} {s₀ s : System} (hs₀ : s₀.Started) {es : List Event}
    (h : run (System.step exFactory) s₀ es = some s) :
    Always (System.step exFactory) (fun s => ∀ e, OnlyConfigured s e) s₀ es ↔
      EachStep (System.step exFactory) (Renews exFactory) s₀ es := by
  have hsound := Started.sound hs₀
  have hstep : ∀ s e s', Sound s → Renews exFactory s e → s.step exFactory e = some s' → Sound s' := by
    intro s e s' hs hrenews hstep
    obtain ⟨hiff, hparsed, hlinked⟩ := renews_iff hs e hstep
    exact ⟨hparsed, hlinked, hiff.mp hrenews⟩
  constructor
  · intro honly
    refine eachStep_of_always (D := fun _ _ => True) hstep ?_ hsound h (fun _ _ _ _ _ _ => trivial) honly
    intro s e s' hs _ hstep' hP
    obtain ⟨hiff, -, hlinked⟩ := renews_iff hs e hstep'
    exact hiff.mpr ((onlyConfigured_iff hlinked).mp hP)
  · intro hrenews
    have hall := always_of_eachStep hstep hsound hrenews
    exact hall.mono fun s hs => (onlyConfigured_iff hs.linked).mpr hs.fresh

def tcpServer : Json :=
  .object [("desc", .string "tcp server"), ("enable", .string "1"), ("idx", .string "1"), ("ip", .string "127.0.0.1"),
    ("params", .object [("threads", .string "50")]), ("port", .string "12316"), ("type", .string "tcpsrv")]

/-- The server and one camera. -/
def transferWith (ip : String) : Json :=
  .object [(strTransferSouthTcpSvrNode, .array [tcpServer]), ("SouthVideo", .array [Perception.Transfer.VsTransferMng.rtspCamera "1" ip "camera1"])]

/-- The detection algorithm of the shipped configuration. -/
def detectNode : Json :=
  .object [("Detect", .array [.object [("desc", .string "onestage"), ("enable", .string "1"), ("idx", .string "1"),
    ("model", .object [("name", .string "yolov5.rknn"), ("platform", .string "arm"), ("type", .string "rknn")]),
    ("name", .string "VisionDetectAlg"), ("params", .object []), ("type", .string "detect"),
    ("version", .string ".1.0")]])]

/-- A camera and an algorithm, but no task. -/
def noTasks : Json :=
  .object [(strAlgNode, detectNode), (strAppNode, .object []), (strDbNode, CfgMng.sqliteNode), (strTaskNode, .null),
    (strTransferNode, transferWith "10.0.78.201")]

def idle : System where
  cfg := ⟨noTasks, stateOf (ParseJson noTasks []), ⟨[], false⟩⟩
  app := .new

theorem started_idle : idle.Started := ⟨rfl, true, rfl⟩

/-- Persons and helmets, seen by the first camera. -/
def alarmTask : Json :=
  .object [("alg_idx", .string "0"),
    ("data_src", .array [.object [("desc", .string "video stream"), ("transfer_id", .string "rtspcli1")]]),
    ("end_time", .string "15:00:00"), ("idx", .string "1"), ("start_time", .string "11:00:00"),
    ("task_flag", .string "HelmetDetect"), ("task_lst", .string "0|23")]

/-- Command 0x13 with these tasks. -/
def setTasks (tasks : List Json) : Command where
  u32Cmd := 0x13
  body := .ok (.array tasks)
  sorted := by
    intro j hj m hm
    cases hj
    cases hm
  appUpdate := none
  transUpdate := none

/-- Command 0x14 with the camera at this address. -/
def setTransfer (ip : String) : Command where
  u32Cmd := 0x14
  body := .ok (transferWith ip)
  sorted := by
    intro j hj m hm
    cases hj
    cases hm
    exact List.pairwise_pair.mpr (show strTransferSouthTcpSvrNode < "SouthVideo" by decide)
  appUpdate := none
  transUpdate := none

def person : detection := ⟨⟨0, 0, 0, 0⟩, 0, true⟩

/-- The keys of the objects, those that an update renews, and whether it is accepted. -/
def keysAndRenewed (c : Command) (s : System) : List String × List String × Bool :=
  (SortedMap.keys s.app.m_mapDetectShrPtr,
    (match CfgMng.RecTcpProtocolMsg CfgMng.exFactorySqlite c s.cfg with
    | .ok _ cfg => renewedKeys (startedTasks cfg.m_mapRuntimeSysCfg)
    | .error _ _ => []),
    (s.step CfgMng.exFactorySqlite (.update c)).isSome)

/-- The task is set, and then its camera gets another address. -/
theorem only_configured_act_readdressed :
    (run (System.step CfgMng.exFactorySqlite) idle
        [.update (setTasks [alarmTask]), .update (setTransfer "10.0.78.203")]).isSome = true ∧
      Always (System.step CfgMng.exFactorySqlite) (fun s => ∀ e, OnlyConfigured s e) idle
        [.update (setTasks [alarmTask]), .update (setTransfer "10.0.78.203")] := by
  have hfirst : (idle.step CfgMng.exFactorySqlite (.update (setTasks [alarmTask]))).map
      (keysAndRenewed (setTransfer "10.0.78.203")) = some (["HelmetDetect1"], ["HelmetDetect1"], true) := by
    decide +kernel
  obtain ⟨s₁, h₁, htriple⟩ := Option.map_eq_some_iff.mp hfirst
  obtain ⟨hkeys, hpair⟩ := Prod.mk.inj htriple
  obtain ⟨hrenewed, hstep⟩ := Prod.mk.inj hpair
  obtain ⟨s, h₂⟩ := Option.isSome_iff_exists.mp hstep
  have hs : run (System.step CfgMng.exFactorySqlite) idle
      [.update (setTasks [alarmTask]), .update (setTransfer "10.0.78.203")] = some s :=
    run_cons_eq_some.mpr ⟨s₁, h₁, run_cons_eq_some.mpr ⟨s, h₂, run_nil⟩⟩
  refine ⟨Option.isSome_iff_exists.mpr ⟨s, hs⟩, (only_configured_act_iff started_idle hs).mpr ?_⟩
  refine (eachStep_cons_of_step h₁).mpr ⟨?_, eachStep_cons.mpr ⟨?_, fun s₂ h₂ => eachStep_nil⟩⟩
  · intro reply cfg _ key obj hobj
    cases hobj
  · intro reply cfg hcfg key obj hobj
    rw [hcfg] at hrenewed
    have hmem : key ∈ SortedMap.keys s₁.app.m_mapDetectShrPtr := SortedMap.mem_keys.mpr ⟨obj, hobj⟩
    rw [hkeys, ← hrenewed] at hmem
    exact .inl hmem

/-- What is done for a person in front of the camera, and the tasks that there are. -/
def doneAndTasks (s : System) : List String × Bool :=
  ((s.onResult "HelmetDetect1AlgResultReport" "10.0.78.201" [person]).log.map taskOf,
    ((s.cfg.m_jRuntimeSysCfg.get strAppNode).items.flatMap fun it => it.2.elems).isEmpty)

/-- The task is set and removed, and a result is still reported for it, with the voice. -/
theorem not_only_configured_act_removed : ∃ s,
    run (System.step CfgMng.exFactorySqlite) idle [.update (setTasks [alarmTask]), .update (setTasks [])] = some s ∧
      (s.onResult "HelmetDetect1AlgResultReport" "10.0.78.201" [person]).log.map taskOf =
        ["HelmetDetect1", "HelmetDetect1"] ∧
      ¬ Configured s.cfg "HelmetDetect1" "10.0.78.201" ∧
      ¬ Always (System.step CfgMng.exFactorySqlite) (fun s => ∀ e, OnlyConfigured s e) idle
        [.update (setTasks [alarmTask]), .update (setTasks [])] := by
  have hrun : (run (System.step CfgMng.exFactorySqlite) idle
      [.update (setTasks [alarmTask]), .update (setTasks [])]).map doneAndTasks =
        some (["HelmetDetect1", "HelmetDetect1"], true) := by decide +kernel
  obtain ⟨s, hs, hpair⟩ := Option.map_eq_some_iff.mp hrun
  obtain ⟨hlog, hempty⟩ := Prod.mk.inj hpair
  have hnone : ¬ Configured s.cfg "HelmetDetect1" "10.0.78.201" := by
    intro ⟨lst, hlst, jTask, hmem, _⟩
    have htask : jTask ∈ (s.cfg.m_jRuntimeSysCfg.get strAppNode).items.flatMap fun it => it.2.elems :=
      List.mem_flatMap.mpr ⟨_, hlst, hmem⟩
    rw [List.isEmpty_iff.mp hempty] at htask
    cases htask
  refine ⟨s, hs, hlog, hnone, fun h => hnone ?_⟩
  have honly := h _ [] s rfl hs (.result "HelmetDetect1AlgResultReport" "10.0.78.201" [person])
  obtain ⟨a, ha, htask⟩ : ∃ a ∈ (s.onResult "HelmetDetect1AlgResultReport" "10.0.78.201" [person]).log,
      taskOf a = "HelmetDetect1" := by
    apply List.mem_map.mp
    rw [hlog]
    exact List.mem_cons_self
  exact htask ▸ honly a ha

end Perception.App
