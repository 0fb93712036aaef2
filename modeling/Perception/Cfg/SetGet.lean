import Perception.Cfg.Atomicity
import Perception.Cfg.Query

/-!
# Settings that are read back

Commands 0x14 and 0x15 take their body for the root node itself. The protocol wraps the
sub-nodes in a member of the root's name: such a body is refused at its first sub-node, or
comes back wrapped.
-/
namespace Perception.Cfg

set_option autoImplicit false

open Perception.Lib Perception.Db StateExcept

/-- The entry as it was submitted, with an allocated index where it had none. -/
def Renumbered (obj obj' : Json) : Prop :=
  ∃ i, obj.attr strAttriIdx = .ok i ∧
    if i = "-1" then ∃ n : Int, 0 < n ∧ obj' = obj.put strAttriIdx (.string (toString n)) else obj' = obj

/-- The sub-node as it was submitted, its entries having an index. -/
def SubNodeReturned (sub sub' : String × Json) : Prop :=
  sub'.1 = sub.1 ∧ ∃ objs, sub'.2 = sub.2.withElems objs ∧ List.Forall₂ Renumbered sub.2.elems objs

/-- The node holds exactly the sub-nodes that were submitted. -/
def Returned (subs : List (String × Json)) (node : Json) : Prop :=
  ∃ subs', node = .object subs' ∧ List.Forall₂ SubNodeReturned subs subs'

/-- Sub-nodes as documented: lists of entries whose type and idx are texts. -/
def Documented (subs : List (String × Json)) : Prop :=
  ∀ sub ∈ subs, ∃ entries, sub.2 = .array entries ∧ ∀ elm ∈ entries,
    (∃ t, elm.attr strAttriType = .ok t) ∧ ∃ i, elm.attr strAttriIdx = .ok i

theorem fillIdx_renumbered {M : Int} {objs objs' : List Json} (hM : 0 ≤ M) (h : fillIdx M objs = .ok objs') :
    List.Forall₂ Renumbered objs objs' := by
  induction objs generalizing M objs' with
  | nil =>
    cases h
    exact .nil
  | cons obj objs ih =>
    obtain ⟨i, obj', M', rest, hi, hrest, rfl, hle, hcase⟩ := fillIdx_cons_eq_ok h
    refine .cons ⟨i, hi, ?_⟩ (ih (hM.trans hle) hrest)
    by_cases hnew : i = "-1"
    · rw [if_pos hnew] at hcase ⊢
      obtain ⟨rfl, -, hput, -⟩ := hcase
      exact ⟨M + 1, by omega, hput⟩
    · rw [if_neg hnew] at hcase ⊢
      exact hcase.2

/-- A chain of accesses that returns has what it ends in return. -/
theorem Json.of_onPath_eq_ok {α : Type} {f : Json → Except Exn α × Json} {a : α} (p : List Access) {j : Json}
    (h : (onPath f p j).1 = .ok a) : ∃ v, (f v).1 = .ok a := by
  induction p generalizing j with
  | nil => exact ⟨j, h⟩
  | cons acc p ih =>
    cases acc with
    | key k =>
      cases j with
      | null => exact ih h
      | object m => exact ih h
      | _ => cases h
    | idx n =>
      cases j with
      | null => exact ih h
      | array xs => exact ih h
      | _ => cases h

namespace CfgMng

theorem onCfg_eq_ok {α : Type} {f : Json → Except Exn α × Json} {s s' : CfgMng} {a : α}
    (h : onCfg f s = .ok a s') : f s.m_jRuntimeSysCfg = (.ok a, s'.m_jRuntimeSysCfg) := by
  rcases hf : f s.m_jRuntimeSysCfg with ⟨r, j⟩
  cases r with
  | ok a' =>
    rw [onCfg_of_ok hf] at h
    cases h
    rfl
  | error e =>
    rw [onCfg_of_error hf] at h
    cases h

/-- The sub-nodes that the index loop makes. -/
theorem allocSubNodes_renumbered {r : String} {its : List (Option String × Json)} {s s₁ : CfgMng} {vs : List Json}
    (h : allocSubNodes r its s = .ok vs s₁) :
    List.Forall₂ (fun it v => ∃ objs, v = it.2.withElems objs ∧ List.Forall₂ Renumbered it.2.elems objs) its vs := by
  induction its generalizing s vs with
  | nil =>
    cases h
    exact .nil
  | cons it its ih =>
    obtain ⟨v, t, hv, h⟩ := bind_eq_ok.mp h
    obtain ⟨ws, t', hws, h⟩ := bind_eq_ok.mp h
    cases h
    refine .cons ?_ (ih hws)
    obtain ⟨k, _, -, hv⟩ := bind_eq_ok.mp hv
    obtain ⟨M, _, hM, hv⟩ := bind_eq_ok.mp hv
    obtain ⟨objs, _, hobjs, hv⟩ := bind_eq_ok.mp hv
    cases hv
    obtain ⟨w, hw⟩ := Json.of_onPath_eq_ok _ (congrArg Prod.fst (onCfg_eq_ok hM))
    have hM₀ : 0 ≤ M := (maxIdx_le hw).1
    exact ⟨objs, rfl, fillIdx_renumbered hM₀ (fromExcept_eq_ok.mp hobjs).1⟩

theorem map_eq_ok {α β : Type} {f : α → β} {x : Cmd α} {s s' : CfgMng} {b : β} (h : (f <$> x) s = .ok b s') :
    ∃ a, x s = .ok a s' ∧ f a = b := by
  change EStateM.map f x s = _ at h
  unfold EStateM.map at h
  split at h
  · next a _ hx =>
    cases h
    exact ⟨a, hx, rfl⟩
  · cases h

/-- A command that returns its reply has updated the configuration. -/
theorem update_inv {exFactory : CfgObjMap} {c : Command} {r : String} {body : Except Exn Json}
    (hc : c.update = some (r, body)) {s s' : CfgMng} {reply : Option Json}
    (h : RecTcpProtocolMsg exFactory c s = .ok reply s') :
    reply = some jResultOk ∧ ∃ j, body = .ok j ∧ RuntimeSysCfgUpdate exFactory r j s = .ok ⟨⟩ s' := by
  obtain ⟨-, -, h₁, h₂⟩ := update_root hc
  rw [RecTcpProtocolMsg, if_neg h₁, if_neg h₂, hc] at h
  obtain ⟨a, ha, rfl⟩ := map_eq_ok h
  obtain ⟨j, _, hfrom, ha⟩ := bind_eq_ok.mp ha
  obtain ⟨hbody, rfl⟩ := fromExcept_eq_ok.mp hfrom
  obtain ⟨_, s₂, hupd, ha⟩ := bind_eq_ok.mp ha
  obtain ⟨_, s₃, hhooks, ha⟩ := bind_eq_ok.mp ha
  cases ha
  have hstate := stateOf_hooks c s₂
  rw [hhooks] at hstate
  obtain rfl : s' = s₂ := hstate
  exact ⟨rfl, j, hbody, hupd⟩

/-- An update that is accepted: the root node is the submitted one with its indices. -/
theorem update_accepted {exFactory : CfgObjMap} {c : Command} {r : String} {body : Except Exn Json}
    (hc : c.update = some (r, body)) {s s' : CfgMng} {reply : Option Json}
    (h : RecTcpProtocolMsg exFactory c s = .ok reply s') :
    reply = some jResultOk ∧ ∃ j vs, body = .ok j ∧
      List.Forall₂ (fun it v => ∃ objs, v = it.2.withElems objs ∧ List.Forall₂ Renumbered it.2.elems objs)
        j.items vs ∧
      ∀ r', s'.m_jRuntimeSysCfg.find? r' =
        if r' = r then some (j.withElems vs) else s.m_jRuntimeSysCfg.find? r' := by
  obtain ⟨hreply, j, hbody, hupd⟩ := update_inv hc h
  obtain ⟨vs, _, s₁, halloc, hfind, -, -, -, hdb⟩ := RuntimeSysCfgUpdate_ok hupd
  have hcfg := (stateOf_updateDb_cfg exFactory r s₁).1
  rw [hdb] at hcfg
  refine ⟨hreply, j, vs, hbody, allocSubNodes_renumbered halloc, fun r' => ?_⟩
  rw [← hfind r']
  exact congrArg (Json.find? · r') hcfg

/-- Reading a root node, which leaves the others alone. -/
theorem read_root_ok {k : String} {s s' : CfgMng} {v : Json} (h : onCfg (Json.read [.key k]) s = .ok v s') :
    v = s.m_jRuntimeSysCfg.get k ∧
      ∀ k', k' ≠ k → s'.m_jRuntimeSysCfg.find? k' = s.m_jRuntimeSysCfg.find? k' := by
  have hread := onCfg_eq_ok h
  constructor
  · have hv := congrArg Prod.fst hread
    cases hj : s.m_jRuntimeSysCfg with
    | null =>
      rw [hj] at hv
      exact (Except.ok.inj hv).symm
    | object m =>
      rw [hj] at hv
      exact (Except.ok.inj hv).symm
    | _ =>
      rw [hj] at hv
      cases hv
  · intro k' hne
    have hj : _ = s'.m_jRuntimeSysCfg := congrArg Prod.snd hread
    rw [← hj]
    exact Json.onPath_find?_of_ne _ hne [] _

/-- The reply to command 0x11 holds the root nodes Transfer and Db. -/
theorem queryCfg_ok {s s' : CfgMng} {jRspData : Json} (h : queryCfg s = .ok jRspData s') :
    ∀ r ∈ [strTransferNode, strDbNode], jRspData.find? r = some (s.m_jRuntimeSysCfg.get r) := by
  obtain ⟨jTransfer, s₁, h₁, h⟩ := bind_eq_ok.mp h
  obtain ⟨jDb, s₂, h₂, h⟩ := bind_eq_ok.mp h
  obtain ⟨jDetectAlgCfg, s₃, -, h⟩ := bind_eq_ok.mp h
  obtain ⟨jActionAlgCfg, s₄, -, h⟩ := bind_eq_ok.mp h
  obtain ⟨strDetectLst, s₅, -, h⟩ := bind_eq_ok.mp h
  obtain ⟨jDetectAlgCfg', s₆, -, h⟩ := bind_eq_ok.mp h
  obtain ⟨strActionLst, s₇, -, h⟩ := bind_eq_ok.mp h
  obtain ⟨jActionAlgCfg', s₈, -, h⟩ := bind_eq_ok.mp h
  cases h
  obtain ⟨rfl, hother⟩ := read_root_ok h₁
  obtain ⟨rfl, -⟩ := read_root_ok h₂
  have hdb : s₁.m_jRuntimeSysCfg.get strDbNode = s.m_jRuntimeSysCfg.get strDbNode := by
    rw [Json.get, Json.get, hother strDbNode (by decide)]
  rw [List.forall_mem_cons, List.forall_mem_singleton, ← hdb]
  exact ⟨rfl, rfl⟩

theorem query_eq (exFactory : CfgObjMap) (s : CfgMng) :
    RecTcpProtocolMsg exFactory (queryCommand 0x11) s = (some <$> queryCfg : Cmd (Option Json)) s := rfl

/-- The command is accepted, and the query that follows returns what it submitted. -/
def SetThenGet (exFactory : CfgObjMap) (c : Command) (strRootNode : String) (subs : List (String × Json))
    (s : CfgMng) : Prop :=
  ∃ s₁, RecTcpProtocolMsg exFactory c s = .ok (some jResultOk) s₁ ∧ ∃ jRspData s₂,
    RecTcpProtocolMsg exFactory (queryCommand 0x11) s₁ = .ok (some jRspData) s₂ ∧
      ∃ node, jRspData.find? strRootNode = some node ∧ Returned subs node

theorem withElems_returned {subs : List (String × Json)} {vs : List Json}
    (h : List.Forall₂ (fun it v => ∃ objs, v = it.2.withElems objs ∧ List.Forall₂ Renumbered it.2.elems objs)
      (Json.object subs).items vs) : Returned subs ((Json.object subs).withElems vs) := by
  refine ⟨_, rfl, ?_⟩
  induction subs generalizing vs with
  | nil =>
    cases h
    exact .nil
  | cons sub subs ih =>
    cases h with
    | cons hv hvs => exact .cons ⟨rfl, hv⟩ (ih hvs)

/-- A body that is the root node itself comes back as it was submitted. -/
theorem bare_returned {exFactory : CfgObjMap} {c : Command} {r : String} {subs : List (String × Json)}
    (hc : c.update = some (r, .ok (.object subs))) (hr : r ∈ [strTransferNode, strDbNode]) {s s₁ s₂ : CfgMng}
    {reply jRspData : Option Json} (hset : RecTcpProtocolMsg exFactory c s = .ok reply s₁)
    (hget : RecTcpProtocolMsg exFactory (queryCommand 0x11) s₁ = .ok jRspData s₂) :
    ∃ j node, jRspData = some j ∧ j.find? r = some node ∧ Returned subs node := by
  obtain ⟨-, j, vs, hj, hvs, hfind⟩ := update_accepted hc hset
  obtain rfl := Except.ok.inj hj
  rw [query_eq] at hget
  obtain ⟨jRsp, hquery, rfl⟩ := map_eq_ok hget
  refine ⟨jRsp, _, rfl, queryCfg_ok hquery r hr, ?_⟩
  rw [Json.get_of_find? ((hfind r).trans (if_pos rfl))]
  exact withElems_returned hvs

/-- **Set, then get.** No body as documented, with the sub-nodes in a member of the root's
name, comes back as it was submitted, whatever the state. -/
theorem not_set_then_get (exFactory : CfgObjMap) {c : Command} {r : String} {subs : List (String × Json)}
    (hc : c.u32Cmd = 0x14 ∧ r = strTransferNode ∨ c.u32Cmd = 0x15 ∧ r = strDbNode)
    (hbody : c.body = .ok (.object [(r, .object subs)])) (hdoc : Documented subs) (s : CfgMng) :
    ¬ SetThenGet exFactory c r subs s := by
  rintro ⟨s₁, hset, jRspData, s₂, hget, node, hnode, subs', rfl, hsubs⟩
  have hupd : c.update = some (r, c.body) := by
    rcases hc with ⟨hcmd, rfl⟩ | ⟨hcmd, rfl⟩
    · rw [Command.update, hcmd]
      rfl
    · rw [Command.update, hcmd]
      rfl
  have hr : r ∈ [strTransferNode, strDbNode] := by
    rcases hc with ⟨-, rfl⟩ | ⟨-, rfl⟩
    · exact List.mem_cons_self
    · exact List.mem_cons_of_mem _ List.mem_cons_self
  rw [hbody] at hupd
  obtain ⟨j, node, hj, hfind, outer, rfl, houter⟩ := bare_returned hupd hr hset hget
  obtain rfl := Option.some.inj hj
  -- what comes back is the body, so the root's name stands in it as a sub-node
  cases houter with
  | cons hsub hrest =>
    cases hrest
    rw [hfind] at hnode
    obtain rfl := Json.object.inj (Option.some.inj hnode)
    cases hsubs with
    | cons hfirst hnil =>
      cases hnil
      obtain ⟨entries, hentries, -⟩ := hdoc _ List.mem_cons_self
      obtain ⟨-, objs, hobjs, -⟩ := hsub
      obtain ⟨-, objs', hobjs', -⟩ := hfirst
      rw [hobjs, hentries] at hobjs'
      cases hobjs'

/-- The body of the protocol for command 0x14, with one server. -/
def setTransferWrapped : Command where
  u32Cmd := 0x14
  body := .ok (.object [(strTransferNode, tcpServerNode)])
  sorted := fun j hj => by
    cases hj
    rintro m hm
    cases hm
    exact List.pairwise_singleton _ _
  appUpdate := none
  transUpdate := none

/-- The sub-nodes of this body. -/
def tcpServerSubs : List (String × Json) :=
  match tcpServerNode with
  | .object subs => subs
  | _ => []

theorem documented_tcpServerSubs : Documented tcpServerSubs := by
  refine List.forall_mem_singleton.mpr ⟨_, rfl, List.forall_mem_singleton.mpr ⟨⟨"tcpsrv", ?_⟩, "-1", ?_⟩⟩
  · exact Json.attr_eq_ok.mpr rfl
  · exact Json.attr_eq_ok.mpr rfl

theorem not_set_then_get_complete :
    ¬ SetThenGet exFactorySqlite setTransferWrapped strTransferNode tcpServerSubs complete :=
  not_set_then_get exFactorySqlite (.inl ⟨rfl, rfl⟩) rfl documented_tcpServerSubs complete

/-- The command is refused, although the query is answered. -/
theorem set_transfer_wrapped_refused : ∃ s₁,
    RecTcpProtocolMsg exFactorySqlite setTransferWrapped complete = .error (.type_error 305) s₁ ∧
      (∃ jRspData s₂, RecTcpProtocolMsg exFactorySqlite (queryCommand 0x11) complete = .ok (some jRspData) s₂) ∧
      ¬ SetThenGet exFactorySqlite setTransferWrapped strTransferNode tcpServerSubs complete := by
  have hrun : RecTcpProtocolMsg exFactorySqlite setTransferWrapped complete = .error (.type_error 305)
      (stateOf (RecTcpProtocolMsg exFactorySqlite setTransferWrapped complete)) := rfl
  refine ⟨_, hrun, ⟨_, _, rfl⟩, ?_⟩
  rintro ⟨s₁, hset, -⟩
  rw [hrun] at hset
  cases hset

end CfgMng

end Perception.Cfg
