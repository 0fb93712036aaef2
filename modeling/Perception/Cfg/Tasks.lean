import Perception.Cfg.SetGet

/-!
# Tasks that are read back

Command 0x13 stores the tasks as entries of the node App, whatever the cameras are. Command
0x12 looks every data source up again, and answers with null where it finds none. The
tasks come back exactly when all that they name is there at the query.
-/
namespace Perception.Cfg

set_option autoImplicit false

open Perception.Lib Perception.Db StateExcept

/-- The camera ids of a task. -/
def transferIds (task : Json) : List (Option Json) :=
  (task.get strAttriDataSrc).elems.map (Json.find? · strAttriTransferId)

/-- The members of a task that command 0x12 returns as they were set. -/
def taskAttrs : List String :=
  [strAttriTaskFlag, strAttriAlgIdx, strAttriTaskLst, strAttriStartTime, strAttriEndTime]

/-- The task as it was submitted, with an allocated index if it had none. -/
structure TaskReturned (task info : Json) : Prop where
  attrs : ∀ k ∈ taskAttrs, info.find? k = task.find? k
  sources : transferIds info = transferIds task
  idx : ∃ i, task.attr strAttriIdx = .ok i ∧
    if i = "-1" then ∃ n : Int, 0 < n ∧ info.attr strAttriIdx = .ok (toString n)
    else info.attr strAttriIdx = .ok i

/-- The id of a data source is filed, and what is filed has a description. -/
def SourceKnown (m : CfgObjMap) (subObj : Json) : Prop :=
  ∃ strTransId, subObj.attr strAttriTransferId = .ok strTransId ∧
    ∃ jDesc, m.getFirst strTransId = some jDesc ∧ ∃ strDesc, jDesc.attr strAttriDesc = .ok strDesc

/-- A task has the texts that command 0x12 reads, and its data sources are known. -/
structure TaskKnown (m : CfgObjMap) (task : Json) : Prop where
  attrs : ∀ k ∈ [strAttriAlgIdx, strAttriTaskLst, strAttriStartTime, strAttriEndTime], ∃ t, task.attr k = .ok t
  sources : ∀ subObj ∈ (task.get strAttriDataSrc).elems, SourceKnown m subObj

/-- What is stored of a task. -/
structure Stored (task obj : Json) : Prop where
  flag : ∃ t, task.attr strAttriTaskFlag = .ok t ∧ obj.attr strAttriType = .ok t
  idx : ∃ i, task.attr strAttriIdx = .ok i ∧
    if i = "-1" then ∃ n : Int, 0 < n ∧ obj.attr strAttriIdx = .ok (toString n) else obj.attr strAttriIdx = .ok i
  other : ∀ k ∉ [strAttriTaskFlag, strAttriType, strAttriIdx], obj.find? k = task.find? k

theorem renameTaskFlag_ok {task obj : Json} (h : renameTaskFlag task = .ok obj) :
    (∃ t, task.attr strAttriTaskFlag = .ok t ∧ obj.attr strAttriType = .ok t) ∧ (∃ m, obj = .object m) ∧
      ∀ k ∉ [strAttriTaskFlag, strAttriType], obj.find? k = task.find? k := by
  obtain ⟨t, ht, h⟩ := except_bind_eq_ok.mp h
  cases task with
  | object m =>
    obtain ⟨_, hset, h⟩ := except_bind_eq_ok.mp h
    cases hset
    obtain rfl := Except.ok.inj h
    refine ⟨⟨t, ht, Json.attr_eq_ok.mpr ?_⟩, ⟨_, rfl⟩, fun k hk => ?_⟩
    · rw [Json.find?_object, SortedMap.find?_erase, if_neg (by decide), SortedMap.find?_insert_self]
    · rw [List.mem_cons, List.mem_singleton, not_or] at hk
      rw [Json.find?_object, SortedMap.find?_erase, if_neg hk.1, SortedMap.find?_insert_of_ne _ _ hk.2]
      rfl
  | _ => cases ht

theorem renameTaskFlags_ok {tasks objs : List Json} (h : renameTaskFlags tasks = .ok objs) :
    List.Forall₂ (fun task obj => renameTaskFlag task = .ok obj) tasks objs := by
  induction tasks generalizing objs with
  | nil =>
    cases h
    exact .nil
  | cons task tasks ih =>
    obtain ⟨obj, hobj, h⟩ := except_bind_eq_ok.mp h
    obtain ⟨rest, hrest, h⟩ := except_bind_eq_ok.mp h
    cases h
    exact .cons hobj (ih hrest)

/-- A task whose flag is renamed and which then gets its index. -/
theorem stored_of_renumbered {task obj obj' : Json} (h : renameTaskFlag task = .ok obj)
    (h' : Renumbered obj obj') : Stored task obj' := by
  obtain ⟨⟨t, ht, htype⟩, ⟨m, rfl⟩, hother⟩ := renameTaskFlag_ok h
  obtain ⟨i, hi, hcase⟩ := h'
  have htask : task.attr strAttriIdx = .ok i := by
    rw [Json.attr_eq_ok] at hi ⊢
    rw [← hi, hother strAttriIdx (by decide)]
  by_cases hnew : i = "-1"
  · rw [if_pos hnew] at hcase
    obtain ⟨n, hn, rfl⟩ := hcase
    have hput : ∀ k, k ≠ strAttriIdx →
        ((Json.object m).put strAttriIdx (.string (toString n))).find? k = (Json.object m).find? k :=
      fun k hne => SortedMap.find?_insert_of_ne m _ hne
    refine ⟨⟨t, ht, ?_⟩, ⟨i, htask, ?_⟩, fun k hk => ?_⟩
    · rw [Json.attr_eq_ok] at htype ⊢
      rw [hput strAttriType (by decide), htype]
    · rw [if_pos hnew]
      exact ⟨n, hn, Json.attr_eq_ok.mpr (SortedMap.find?_insert_self m _ _)⟩
    · simp only [List.mem_cons, List.not_mem_nil, or_false, not_or] at hk
      rw [hput k hk.2.2, hother k (by simp [hk.1, hk.2.1])]
  · rw [if_neg hnew] at hcase
    obtain rfl := hcase
    refine ⟨⟨t, ht, htype⟩, ⟨i, htask, ?_⟩, fun k hk => ?_⟩
    · rw [if_neg hnew]
      exact hi
    · simp only [List.mem_cons, List.not_mem_nil, or_false, not_or] at hk
      exact hother k (by simp [hk.1, hk.2.1])

theorem stored_of_forall₂ {tasks objs objs' : List Json}
    (h : List.Forall₂ (fun task obj => renameTaskFlag task = .ok obj) tasks objs)
    (h' : List.Forall₂ Renumbered objs objs') : List.Forall₂ Stored tasks objs' := by
  induction h generalizing objs' with
  | nil =>
    cases h'
    exact .nil
  | cons hone _ ih =>
    cases h' with
    | cons hnew hrest => exact .cons (stored_of_renumbered hone hnew) (ih hrest)

/-- A data source comes back exactly when it is known. -/
theorem dataSrcInfo_iff (m : CfgObjMap) (subObj : Json) :
    (∃ jDataSrc, dataSrcInfo m subObj = .ok jDataSrc ∧
      jDataSrc.find? strAttriTransferId = subObj.find? strAttriTransferId) ↔ SourceKnown m subObj := by
  constructor
  · rintro ⟨jDataSrc, h, hid⟩
    obtain ⟨strTransId, hattr, h⟩ := except_bind_eq_ok.mp h
    refine ⟨strTransId, hattr, ?_⟩
    cases hfirst : m.getFirst strTransId with
    | none =>
      -- null is pushed, which has no id
      rw [hfirst] at h
      cases h
      rw [Json.attr_eq_ok.mp hattr] at hid
      cases hid
    | some jDesc =>
      rw [hfirst] at h
      obtain ⟨strDesc, hdesc, -⟩ := except_bind_eq_ok.mp h
      exact ⟨jDesc, rfl, strDesc, hdesc⟩
  · rintro ⟨strTransId, hattr, jDesc, hfirst, strDesc, hdesc⟩
    refine ⟨.object [(strAttriDesc, .string strDesc), (strAttriTransferId, .string strTransId)],
      except_bind_eq_ok.mpr ⟨strTransId, hattr, ?_⟩, ?_⟩
    · rw [hfirst]
      exact except_bind_eq_ok.mpr ⟨strDesc, hdesc, rfl⟩
    · rw [Json.attr_eq_ok.mp hattr]
      rfl

/-- The reply for a task, its parts being given. -/
def taskReply (flag alg lst start stop idx : String) (jDataSrc : List Json) : Json :=
  .object ([(strAttriAlgIdx, .string alg)] ++ (if jDataSrc.isEmpty then [] else [(strAttriDataSrc, .array jDataSrc)]) ++
    [(strAttriEndTime, .string stop), (strAttriIdx, .string idx), (strAttriStartTime, .string start),
      (strAttriTaskFlag, .string flag), (strAttriTaskLst, .string lst)])

theorem taskInfo_eq_ok {m : CfgObjMap} {obj info : Json} : taskInfo m obj = .ok info ↔
    ∃ flag alg jList jDataSrc lst start stop idx, obj.attr strAttriType = .ok flag ∧
      obj.attr strAttriAlgIdx = .ok alg ∧ obj.child strAttriDataSrc = .ok jList ∧
      jList.elems.mapM (dataSrcInfo m) = .ok jDataSrc ∧ obj.attr strAttriTaskLst = .ok lst ∧
      obj.attr strAttriStartTime = .ok start ∧ obj.attr strAttriEndTime = .ok stop ∧
      obj.attr strAttriIdx = .ok idx ∧ info = taskReply flag alg lst start stop idx jDataSrc := by
  unfold taskInfo
  simp only [except_bind_eq_ok]
  constructor
  · rintro ⟨flag, hflag, alg, halg, jList, hlist, jDataSrc, hsrc, lst, hlst, start, hstart, stop, hstop, idx, hidx, h⟩
    exact ⟨flag, alg, jList, jDataSrc, lst, start, stop, idx, hflag, halg, hlist, hsrc, hlst, hstart, hstop, hidx,
      (Except.ok.inj h).symm⟩
  · rintro ⟨flag, alg, jList, jDataSrc, lst, start, stop, idx, hflag, halg, hlist, hsrc, hlst, hstart, hstop, hidx, rfl⟩
    exact ⟨flag, hflag, alg, halg, jList, hlist, jDataSrc, hsrc, lst, hlst, start, hstart, stop, hstop, idx, hidx, rfl⟩

theorem transferIds_taskReply (flag alg lst start stop idx : String) (jDataSrc : List Json) :
    transferIds (taskReply flag alg lst start stop idx jDataSrc) = jDataSrc.map (Json.find? · strAttriTransferId) := by
  cases jDataSrc with
  | nil => rfl
  | cons d ds =>
    show ((Json.array (d :: ds)).elems.map (Json.find? · strAttriTransferId)) = _
    rw [Json.elems_array]

/-- The members of the reply, whether or not there are data sources. -/
theorem find?_taskReply (flag alg lst start stop idx : String) (jDataSrc : List Json) :
    (taskReply flag alg lst start stop idx jDataSrc).find? strAttriTaskFlag = some (.string flag) ∧
      (taskReply flag alg lst start stop idx jDataSrc).find? strAttriAlgIdx = some (.string alg) ∧
      (taskReply flag alg lst start stop idx jDataSrc).find? strAttriTaskLst = some (.string lst) ∧
      (taskReply flag alg lst start stop idx jDataSrc).find? strAttriStartTime = some (.string start) ∧
      (taskReply flag alg lst start stop idx jDataSrc).find? strAttriEndTime = some (.string stop) ∧
      (taskReply flag alg lst start stop idx jDataSrc).find? strAttriIdx = some (.string idx) := by
  cases jDataSrc with
  | nil => exact ⟨rfl, rfl, rfl, rfl, rfl, rfl⟩
  | cons d ds => exact ⟨rfl, rfl, rfl, rfl, rfl, rfl⟩

/-- The data sources of a task come back exactly when they are known. -/
theorem sources_iff (m : CfgObjMap) (subObjs : List Json) :
    (∃ jDataSrc, subObjs.mapM (dataSrcInfo m) = .ok jDataSrc ∧
      jDataSrc.map (Json.find? · strAttriTransferId) = subObjs.map (Json.find? · strAttriTransferId)) ↔
      ∀ subObj ∈ subObjs, SourceKnown m subObj := by
  have hsame : ∀ jDataSrc : List Json,
      jDataSrc.map (Json.find? · strAttriTransferId) = subObjs.map (Json.find? · strAttriTransferId) ↔
        List.Forall₂ (fun subObj j => j.find? strAttriTransferId = subObj.find? strAttriTransferId) subObjs jDataSrc := by
    intro jDataSrc
    rw [eq_comm, ← List.forall₂_eq_eq_eq, List.forall₂_map_left_iff, List.forall₂_map_right_iff]
    simp only [eq_comm]
  simp only [hsame, mapM_related_iff, List.forall₂_same, dataSrcInfo_iff]

/-- The attributes that an update leaves, and the data sources, are those of the task. -/
theorem Stored.attr_iff {task obj : Json} (h : Stored task obj) {k : String}
    (hk : k ∈ [strAttriAlgIdx, strAttriTaskLst, strAttriStartTime, strAttriEndTime]) (v : String) :
    obj.attr k = .ok v ↔ task.attr k = .ok v := by
  have hne : ∀ k ∈ [strAttriAlgIdx, strAttriTaskLst, strAttriStartTime, strAttriEndTime],
      k ∉ [strAttriTaskFlag, strAttriType, strAttriIdx] := by decide
  rw [Json.attr_eq_ok, Json.attr_eq_ok, h.other k (hne k hk)]

theorem Stored.get_dataSrc {task obj : Json} (h : Stored task obj) :
    obj.get strAttriDataSrc = task.get strAttriDataSrc := by
  rw [Json.get, Json.get, h.other strAttriDataSrc (by decide)]

theorem taskKnown_of_returned {m : CfgObjMap} {task obj info : Json} (h : Stored task obj)
    (hinfo : taskInfo m obj = .ok info) (hret : TaskReturned task info) : TaskKnown m task := by
  obtain ⟨flag, alg, jList, jDataSrc, lst, start, stop, idx, -, halg, hlist, hmap, hlst, hstart, hstop, -, rfl⟩ :=
    taskInfo_eq_ok.mp hinfo
  constructor
  · simp only [List.forall_mem_cons, List.not_mem_nil, false_implies, implies_true, and_true]
    exact ⟨⟨alg, (h.attr_iff (by decide) _).mp halg⟩, ⟨lst, (h.attr_iff (by decide) _).mp hlst⟩,
      ⟨start, (h.attr_iff (by decide) _).mp hstart⟩, ⟨stop, (h.attr_iff (by decide) _).mp hstop⟩⟩
  · have hids := hret.sources
    rw [transferIds_taskReply, transferIds] at hids
    obtain rfl := Json.child_eq_ok hlist
    rw [h.get_dataSrc] at hmap
    exact (sources_iff m _).mp ⟨jDataSrc, hmap, hids⟩

theorem taskReturned_of_known {m : CfgObjMap} {task obj : Json} (h : Stored task obj) (hknown : TaskKnown m task) :
    ∃ info, taskInfo m obj = .ok info ∧ TaskReturned task info := by
  obtain ⟨hattrs, hsources⟩ := hknown
  obtain ⟨t, hflag, htype⟩ := h.flag
  obtain ⟨i, hi, hidx⟩ := h.idx
  obtain ⟨alg, halg⟩ := hattrs strAttriAlgIdx (by decide)
  obtain ⟨lst, hlst⟩ := hattrs strAttriTaskLst (by decide)
  obtain ⟨start, hstart⟩ := hattrs strAttriStartTime (by decide)
  obtain ⟨stop, hstop⟩ := hattrs strAttriEndTime (by decide)
  obtain ⟨jDataSrc, hmap, hids⟩ := (sources_iff m _).mpr hsources
  have hobj : ∃ idx, obj.attr strAttriIdx = .ok idx ∧
      if i = "-1" then ∃ n : Int, 0 < n ∧ idx = toString n else idx = i := by
    by_cases hnew : i = "-1"
    · rw [if_pos hnew] at hidx
      obtain ⟨n, hn, hidx⟩ := hidx
      exact ⟨_, hidx, by rw [if_pos hnew]; exact ⟨n, hn, rfl⟩⟩
    · rw [if_neg hnew] at hidx
      exact ⟨_, hidx, by rw [if_neg hnew]⟩
  obtain ⟨idx, hobjIdx, hcase⟩ := hobj
  have hchild : obj.child strAttriDataSrc = .ok (task.get strAttriDataSrc) := by
    have hsrc := h.get_dataSrc
    cases obj with
    | object m => exact congrArg Except.ok hsrc
    | _ => cases htype
  refine ⟨taskReply t alg lst start stop idx jDataSrc, taskInfo_eq_ok.mpr ?_, ?_⟩
  · exact ⟨t, alg, _, jDataSrc, lst, start, stop, idx, htype, (h.attr_iff (by decide) _).mpr halg, hchild, hmap,
      (h.attr_iff (by decide) _).mpr hlst, (h.attr_iff (by decide) _).mpr hstart,
      (h.attr_iff (by decide) _).mpr hstop, hobjIdx, rfl⟩
  · obtain ⟨hf, ha, hl, hst, hsp, hix⟩ := find?_taskReply t alg lst start stop idx jDataSrc
    refine ⟨?_, ?_, i, hi, ?_⟩
    · simp only [taskAttrs, List.forall_mem_cons, List.not_mem_nil, false_implies, implies_true, and_true]
      rw [hf, ha, hl, hst, hsp, Json.attr_eq_ok.mp hflag, Json.attr_eq_ok.mp halg, Json.attr_eq_ok.mp hlst,
        Json.attr_eq_ok.mp hstart, Json.attr_eq_ok.mp hstop]
      exact ⟨rfl, rfl, rfl, rfl, rfl⟩
    · rw [transferIds_taskReply, hids, transferIds]
    · by_cases hnew : i = "-1"
      · rw [if_pos hnew] at hcase ⊢
        obtain ⟨n, hn, rfl⟩ := hcase
        exact ⟨n, hn, Json.attr_eq_ok.mpr hix⟩
      · rw [if_neg hnew] at hcase ⊢
        rw [Json.attr_eq_ok, hix, hcase]

/-- **One task.** It comes back as it was submitted exactly when it is known. -/
theorem taskInfo_iff {m : CfgObjMap} {task obj : Json} (h : Stored task obj) :
    (∃ info, taskInfo m obj = .ok info ∧ TaskReturned task info) ↔ TaskKnown m task := by
  constructor
  · rintro ⟨info, hinfo, hret⟩
    exact taskKnown_of_returned h hinfo hret
  · exact taskReturned_of_known h

namespace CfgMng

/-- **What command 0x13 stores**: for every task an entry, in the order of the tasks. -/
theorem tasks_stored {exFactory : CfgObjMap} {c : Command} (hc : c.u32Cmd = 0x13) {jTasks : Json}
    (hbody : c.body = .ok jTasks) {s s' : CfgMng} {reply : Option Json}
    (h : RecTcpProtocolMsg exFactory c s = .ok reply s') :
    ∃ node, s'.m_jRuntimeSysCfg.find? strAppNode = some node ∧
      List.Forall₂ Stored jTasks.elems (node.elems.flatMap Json.elems) := by
  have hupd : ∃ body, c.update = some (strAppNode, body) ∧ body = (do
      let jTasks ← c.body
      let objs ← renameTaskFlags jTasks.elems
      pure (.object [(strAppCommSafeNode, jTasks.withElems objs)])) := by
    rw [Command.update, if_pos hc]
    exact ⟨_, rfl, rfl⟩
  obtain ⟨body, hupd, hdo⟩ := hupd
  obtain ⟨-, j, vs, rfl, hvs, hfind⟩ := update_accepted hupd h
  obtain ⟨jTasks', hj, hdo⟩ := except_bind_eq_ok.mp hdo.symm
  obtain rfl : jTasks' = jTasks := Except.ok.inj (hj.symm.trans hbody)
  obtain ⟨objs, hrename, hdo⟩ := except_bind_eq_ok.mp hdo
  cases hdo
  have hrenamed := renameTaskFlags_ok hrename
  refine ⟨_, (hfind strAppNode).trans (if_pos rfl), ?_⟩
  cases hvs with
  | cons hsub hnil =>
    cases hnil
    obtain ⟨objs', rfl, hnum⟩ := hsub
    have helems : (jTasks'.withElems objs).elems = objs := by
      apply Json.elems_withElems hrenamed.length_eq.symm
      intro task htask
      obtain ⟨n, hn, rfl⟩ := List.getElem_of_mem htask
      obtain ⟨⟨t, ht, -⟩, -⟩ := renameTaskFlag_ok (hrenamed.get hn (hrenamed.length_eq ▸ hn))
      exact Json.isObject_of_attr ht
    have hnode : ((jTasks'.withElems objs).withElems objs').elems = objs' := by
      apply Json.elems_withElems hnum.length_eq.symm
      intro obj hobj
      obtain ⟨n, hn, rfl⟩ := List.getElem_of_mem hobj
      obtain ⟨i, hi, -⟩ := hnum.get hn (hnum.length_eq ▸ hn)
      exact Json.isObject_of_attr hi
    change List.Forall₂ Renumbered (jTasks'.withElems objs).elems objs' at hnum
    rw [helems] at hnum
    show List.Forall₂ Stored jTasks'.elems
      (((Json.object [(strAppCommSafeNode, (jTasks'.withElems objs).withElems objs')]).elems).flatMap Json.elems)
    rw [Json.elems_object, List.map_cons, List.map_nil, List.flatMap_cons, List.flatMap_nil, List.append_nil, hnode]
    exact stored_of_forall₂ hrenamed hnum

/-- The root nodes other than `r` stay. -/
def KeepsOthers (r : String) (s s' : CfgMng) : Prop :=
  ∀ r', r' ≠ r → s'.m_jRuntimeSysCfg.find? r' = s.m_jRuntimeSysCfg.find? r'

theorem KeepsOthers.refl (r : String) (s : CfgMng) : KeepsOthers r s s := fun _ _ => rfl

theorem KeepsOthers.trans {r : String} {s s₁ s' : CfgMng} (h : KeepsOthers r s s₁) (h' : KeepsOthers r s₁ s') :
    KeepsOthers r s s' := fun r' hne => (h' r' hne).trans (h r' hne)

/-- Of the configuration, an update changes the root node that it is for and no other, also
when it throws. -/
theorem keepsOthers_update (exFactory : CfgObjMap) (r : String) (j : Json) (s : CfgMng) :
    KeepsOthers r s (stateOf (RuntimeSysCfgUpdate exFactory r j s)) := by
  have hreplace : ∀ v s, KeepsOthers r s (stateOf (onCfg (replaceRoot r v) s)) := by
    intro v s r' hne
    rw [stateOf_onCfg]
    rcases hrep : replaceRoot r v s.m_jRuntimeSysCfg with ⟨res, j'⟩
    cases res with
    | error e => rw [replaceRoot_error hrep]
    | ok u => exact (replaceRoot_find? hrep r').trans (if_neg hne)
  unfold RuntimeSysCfgUpdate
  refine stateOf_bind_rel (R := KeepsOthers r) KeepsOthers.trans (onlyNode_allocSubNodes r _ s).other ?_
  intro vs s₁ _
  refine stateOf_bind_rel (R := KeepsOthers r) KeepsOthers.trans (hreplace _ s₁) fun _ s₂ _ => ?_
  refine stateOf_bind_rel (R := KeepsOthers r) KeepsOthers.trans (KeepsOthers.refl r s₂) fun _ s₃ _ => ?_
  refine stateOf_bind_rel (R := KeepsOthers r) KeepsOthers.trans (KeepsOthers.refl r s₃) fun s₄ s₅ _ => ?_
  refine stateOf_bind_rel (R := KeepsOthers r) KeepsOthers.trans ?_ fun _ s₆ _ => ?_
  · unfold onMap zoom
    cases ParseJson s₄.m_jRuntimeSysCfg s₅.m_mapRuntimeSysCfg <;> exact KeepsOthers.refl r s₅
  · intro r' _
    rw [(stateOf_updateDb_cfg exFactory r s₆).1]

theorem keepsOthers_RecTcpProtocolMsg (exFactory : CfgObjMap) {c : Command} {r : String} {body : Except Exn Json}
    (hc : c.update = some (r, body)) (s : CfgMng) :
    KeepsOthers r s (stateOf (RecTcpProtocolMsg exFactory c s)) := by
  obtain ⟨-, -, h₁, h₂⟩ := update_root hc
  rw [RecTcpProtocolMsg, if_neg h₁, if_neg h₂, hc, stateOf_map]
  unfold updateCommand
  have hbody : stateOf ((fromExcept body : Cmd Json) s) = s := by cases body <;> rfl
  refine stateOf_bind_rel (R := KeepsOthers r) KeepsOthers.trans ?_ fun j s₁ _ => ?_
  · rw [hbody]
    exact KeepsOthers.refl r s
  refine stateOf_bind_rel (R := KeepsOthers r) KeepsOthers.trans (keepsOthers_update exFactory r j s₁) fun _ s₂ _ => ?_
  refine stateOf_bind_rel (R := KeepsOthers r) KeepsOthers.trans ?_ fun _ s₃ _ => KeepsOthers.refl r s₃
  rw [stateOf_hooks]
  exact KeepsOthers.refl r s₂

/-- Any number of commands 0x14, accepted or refused. -/
inductive TransferUpdates (exFactory : CfgObjMap) : CfgMng → CfgMng → Prop where
  | none (s : CfgMng) : TransferUpdates exFactory s s
  | next {c : Command} {s s' : CfgMng} : c.u32Cmd = 0x14 →
      (∀ s₁, RecTcpProtocolMsg exFactory c s ≠ .error .undefined s₁) →
      TransferUpdates exFactory (stateOf (RecTcpProtocolMsg exFactory c s)) s' → TransferUpdates exFactory s s'

theorem TransferUpdates.app {exFactory : CfgObjMap} {s s' : CfgMng} (h : TransferUpdates exFactory s s') :
    s'.m_jRuntimeSysCfg.find? strAppNode = s.m_jRuntimeSysCfg.find? strAppNode := by
  induction h with
  | none s => rfl
  | @next c s s' hcmd _ _ ih =>
    have hupd : c.update = some (strTransferNode, c.body) := by
      rw [Command.update, hcmd]
      rfl
    exact ih.trans (keepsOthers_RecTcpProtocolMsg exFactory hupd s strAppNode (by decide))

theorem queryTasks_eq {s : CfgMng} {node : Json} (h : s.m_jRuntimeSysCfg.find? strAppNode = some node) :
    queryTasks s = match (node.elems.flatMap Json.elems).mapM (taskInfo s.m_mapRuntimeSysCfg) with
      | .ok infos => .ok (if infos.isEmpty then .null else .array infos) s
      | .error e => .error e s := by
  have hread : onCfg (Json.read [.key strAppNode]) s = .ok node s := by
    have hfollows := (follows_read [.key strAppNode] s).2
    cases hj : s.m_jRuntimeSysCfg with
    | object m =>
      rw [hj] at h hfollows
      rw [Json.walkPath, show SortedMap.find? m strAppNode = some node from h] at hfollows
      change onCfg _ s = .ok ((SortedMap.find? m strAppNode).getD .null) s at hfollows
      rwa [show SortedMap.find? m strAppNode = some node from h] at hfollows
    | _ =>
      rw [hj] at h
      cases h
  rw [queryTasks, bind_of_ok hread]
  show (fromExcept ((node.elems.flatMap Json.elems).mapM (taskInfo s.m_mapRuntimeSysCfg)) >>= _) s = _
  cases (node.elems.flatMap Json.elems).mapM (taskInfo s.m_mapRuntimeSysCfg) <;> rfl

/-- Command 0x12 is answered with the tasks as they were submitted, in their order. -/
def TasksReturned (exFactory : CfgObjMap) (jTasks : Json) (s : CfgMng) : Prop :=
  ∃ jRspData s', RecTcpProtocolMsg exFactory (queryCommand 0x12) s = .ok (some jRspData) s' ∧
    List.Forall₂ TaskReturned jTasks.elems jRspData.elems

/-- **Set the tasks, then get them.** After any number of updates of the cameras the tasks
come back exactly when every one of them is known at the query. -/
theorem tasks_returned_iff {exFactory : CfgObjMap} {c : Command} (hc : c.u32Cmd = 0x13) {jTasks : Json}
    (hbody : c.body = .ok jTasks) {s s₁ s₂ : CfgMng} {reply : Option Json}
    (hset : RecTcpProtocolMsg exFactory c s = .ok reply s₁) (hbetween : TransferUpdates exFactory s₁ s₂) :
    TasksReturned exFactory jTasks s₂ ↔ ∀ task ∈ jTasks.elems, TaskKnown s₂.m_mapRuntimeSysCfg task := by
  obtain ⟨node, hnode, hstored⟩ := tasks_stored hc hbody hset
  have hquery := queryTasks_eq (hbetween.app.trans hnode)
  have hrec : RecTcpProtocolMsg exFactory (queryCommand 0x12) s₂ = (some <$> queryTasks : Cmd (Option Json)) s₂ := rfl
  have hreply : TasksReturned exFactory jTasks s₂ ↔ ∃ infos,
      (node.elems.flatMap Json.elems).mapM (taskInfo s₂.m_mapRuntimeSysCfg) = .ok infos ∧
        List.Forall₂ TaskReturned jTasks.elems infos := by
    have helems : ∀ infos : List Json, (if infos.isEmpty then Json.null else .array infos).elems = infos := by
      intro infos
      cases infos with
      | nil => rfl
      | cons info infos => exact Json.elems_array _
    constructor
    · rintro ⟨jRspData, s', h, hret⟩
      rw [hrec] at h
      obtain ⟨jRsp, hok, heq⟩ := map_eq_ok h
      obtain rfl := Option.some.inj heq
      rw [hquery] at hok
      split at hok
      · next infos hmap =>
        cases hok
        rw [helems] at hret
        exact ⟨infos, hmap, hret⟩
      · cases hok
    · rintro ⟨infos, hmap, hret⟩
      rw [hmap] at hquery
      refine ⟨_, s₂, ?_, (helems infos).symm ▸ hret⟩
      rw [hrec]
      show EStateM.map some queryTasks s₂ = _
      rw [EStateM.map, hquery]
  rw [hreply, mapM_related_iff]
  -- task by task, each against its entry
  clear hreply hquery hnode
  generalize jTasks.elems = tasks at hstored ⊢
  generalize node.elems.flatMap Json.elems = objs at hstored ⊢
  induction hstored with
  | nil => simp
  | cons hone _ ih =>
    rw [List.forall₂_cons, List.forall_mem_cons]
    exact and_congr (taskInfo_iff hone) ih

/-- A camera as in the protocol document. -/
def camera (idx ip : String) : Json :=
  .object [("desc", .string "video stream"), ("enable", .string "1"), ("idx", .string idx), ("ip", .string ip),
    ("params", .object [("code", .string "camera1"), ("pwd", .string "wavecamera1"), ("username", .string "admin")]),
    ("port", .string "554"), ("type", .string "rtspcli")]

/-- Command 0x14 with these cameras. -/
def setCameras (cameras : List Json) : Command where
  u32Cmd := 0x14
  body := .ok (.object [("SouthVideo", .array cameras)])
  sorted := by
    intro j hj m hm
    cases hj
    cases hm
    exact List.pairwise_singleton _ _
  appUpdate := none
  transUpdate := none

/-- A task on the first camera. -/
def helmetTask : Json :=
  .object [("alg_idx", .string "0"),
    ("data_src", .array [.object [("desc", .string "video stream"), ("transfer_id", .string "rtspcli1")]]),
    ("end_time", .string "15:00:00"), ("idx", .string "-1"), ("start_time", .string "11:00:00"),
    ("task_flag", .string "HelmetDetect"), ("task_lst", .string "1|3")]

/-- Command 0x13 with this task. -/
def setHelmetTask : Command where
  u32Cmd := 0x13
  body := .ok (.array [helmetTask])
  sorted := by
    intro j hj m hm
    cases hj
    cases hm
  appUpdate := none
  transUpdate := none

/-- The camera is configured after the task that names it. -/
theorem tasks_returned_helmet : ∃ s₁ s₂,
    RecTcpProtocolMsg exFactorySqlite setHelmetTask databaseOnly = .ok (some jResultOk) s₁ ∧
      RecTcpProtocolMsg exFactorySqlite (setCameras [camera "1" "10.0.78.201"]) s₁ = .ok (some jResultOk) s₂ ∧
      TasksReturned exFactorySqlite (.array [helmetTask]) s₂ := by
  have hrun : ∃ s₁ s₂, RecTcpProtocolMsg exFactorySqlite setHelmetTask databaseOnly = .ok (some jResultOk) s₁ ∧
      RecTcpProtocolMsg exFactorySqlite (setCameras [camera "1" "10.0.78.201"]) s₁ = .ok (some jResultOk) s₂ ∧
      s₂.m_mapRuntimeSysCfg.getFirst "rtspcli1" = some (camera "1" "10.0.78.201") := ⟨_, _, rfl, rfl, rfl⟩
  obtain ⟨s₁, s₂, hset, hcameras, hfirst⟩ := hrun
  have hbetween : TransferUpdates exFactorySqlite s₁ s₂ := by
    have hdone : TransferUpdates exFactorySqlite s₂ s₂ := .none s₂
    refine .next (c := setCameras [camera "1" "10.0.78.201"]) rfl ?_ ?_
    · rw [hcameras]
      intro s h
      cases h
    · rw [hcameras]
      exact hdone
  refine ⟨s₁, s₂, hset, hcameras, (tasks_returned_iff rfl rfl hset hbetween).mpr ?_⟩
  rw [Json.elems_array, List.forall_mem_singleton]
  refine ⟨?_, ?_⟩
  · simp only [List.forall_mem_cons, List.not_mem_nil, false_implies, implies_true, and_true]
    exact ⟨⟨"0", Json.attr_eq_ok.mpr rfl⟩, ⟨"1|3", Json.attr_eq_ok.mpr rfl⟩, ⟨"11:00:00", Json.attr_eq_ok.mpr rfl⟩,
      ⟨"15:00:00", Json.attr_eq_ok.mpr rfl⟩⟩
  · have hsrc : (helmetTask.get strAttriDataSrc).elems =
        [.object [("desc", .string "video stream"), ("transfer_id", .string "rtspcli1")]] := Json.elems_array _
    rw [hsrc, List.forall_mem_singleton]
    exact ⟨"rtspcli1", Json.attr_eq_ok.mpr rfl, _, hfirst, "video stream", Json.attr_eq_ok.mpr rfl⟩

/-- No camera is configured: the task comes back with null for its data source. -/
theorem not_tasks_returned_without_camera : ∃ s₁ s₂,
    RecTcpProtocolMsg exFactorySqlite setHelmetTask databaseOnly = .ok (some jResultOk) s₁ ∧
      RecTcpProtocolMsg exFactorySqlite (queryCommand 0x12) s₁ =
        .ok (some (.array [taskReply "HelmetDetect" "0" "1|3" "11:00:00" "15:00:00" "1" [.null]])) s₂ ∧
      ¬ TasksReturned exFactorySqlite (.array [helmetTask]) s₁ := by
  have hrun : ∃ s₁ s₂, RecTcpProtocolMsg exFactorySqlite setHelmetTask databaseOnly = .ok (some jResultOk) s₁ ∧
      RecTcpProtocolMsg exFactorySqlite (queryCommand 0x12) s₁ =
        .ok (some (.array [taskReply "HelmetDetect" "0" "1|3" "11:00:00" "15:00:00" "1" [.null]])) s₂ :=
    ⟨_, _, rfl, rfl⟩
  obtain ⟨s₁, s₂, hset, hquery⟩ := hrun
  refine ⟨s₁, s₂, hset, hquery, fun hreturned => ?_⟩
  obtain ⟨jRspData, s', h, hret⟩ := hreturned
  rw [hquery] at h
  obtain rfl := Option.some.inj (EStateM.Result.ok.inj h).1
  rw [Json.elems_array, Json.elems_array] at hret
  cases hret with
  | cons hone _ =>
    have hsources := hone.sources
    rw [transferIds_taskReply] at hsources
    cases hsources

end CfgMng

end Perception.Cfg
