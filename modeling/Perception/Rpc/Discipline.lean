import Mathlib.Data.List.Nodup
import Perception.Lib.History
import Perception.Rpc.RPCClientMng

/-!
# Who holds a pooled client

In every interleaving the flag of a pooled client says whether it is held. The flag is set
where the client is handed out and cleared where its call ends, whatever becomes of the
connection, so that no client is handed out twice and none is lost to the pool.
-/
namespace Perception.Rpc

set_option autoImplicit false

open Perception.Lib.History

variable {κ : Type}

namespace Rpcs

/-- The caller in `GetRpcClientFromPool` looks at clients of the pool, and one that it has
found idle stays idle. -/
def PhaseOk (s : Rpcs κ) : GetPhase → Prop
  | .looking rest => ∀ p ∈ rest, p ∈ s.pool
  | .found p => p ∈ s.pool ∧ (s.heap p).m_bBusy = false

structure Inv (s : Rpcs κ) : Prop where
  inited : s.mng.m_bInited = true
  once : s.out.Nodup
  busy : ∀ p ∈ s.pool, (s.heap p).m_bBusy = true ↔ p ∈ s.out
  bounded : (s.pool.length : Int) ≤ s.mng.m_nMaxRpcConn
  connected : ∀ p, (s.heap p).m_bConn = true → (s.heap p).isOpen = true
  fresh : ∀ p, p ∈ s.pool ∨ p ∈ s.out → p < s.next
  phase : ∀ caller phase, s.m_Mutex = some (caller, phase) → s.PhaseOk phase

variable {s s' : Rpcs κ} {p q : RPCClientPtr} {caller : κ}

theorem Inv.init (nMaxRpcConn : Int) : Inv (Init nMaxRpcConn : Rpcs κ) where
  inited := rfl
  once := List.nodup_nil
  busy := fun p hp => absurd hp List.not_mem_nil
  bounded := by
    have hpos : (0 : Int) ≤ if 0 ≥ nMaxRpcConn then nDefaultRPCConnectCount else nMaxRpcConn := by
      split
      · decide
      · omega
    exact hpos
  connected := fun p h => absurd h Bool.false_ne_true
  fresh := fun p h => absurd h (by simp [Init, CRPCClientMng.Init, pool, out])
  phase := fun _ _ h => nomatch h

theorem connected_OpenRPCConn {c : CRPCClient} (h : c.m_bConn = true → c.isOpen = true) (bOpen : Bool) :
    (c.OpenRPCConn bOpen).2.m_bConn = true → (c.OpenRPCConn bOpen).2.isOpen = true := by
  unfold CRPCClient.OpenRPCConn
  split
  · exact h
  · split
    · exact fun _ => rfl
    · next hconn _ => exact fun hc => absurd hc hconn

theorem m_bBusy_OpenRPCConn (c : CRPCClient) (bOpen : Bool) : (c.OpenRPCConn bOpen).2.m_bBusy = c.m_bBusy := by
  unfold CRPCClient.OpenRPCConn
  split
  · rfl
  · split
    · rfl
    · rfl

theorem CreateClientService_true {bOpen : Bool} {c : CRPCClient} (h : CRPCClient.CreateClientService bOpen = (true, c)) :
    c = ⟨true, true, true⟩ := by
  cases bOpen with
  | true =>
    cases h
    rfl
  | false => cases h

@[simp] theorem heap_write_self (c : CRPCClient) : (s.write p c).heap p = c := if_pos rfl

theorem heap_write_of_ne (c : CRPCClient) (h : q ≠ p) : (s.write p c).heap q = s.heap q := if_neg h

theorem write_heap : s.write p (s.heap p) = s := by
  have hheap : (fun q => if q = p then s.heap p else s.heap q) = s.heap := by
    funext q
    split
    · next hq => rw [hq]
    · rfl
  unfold write
  rw [hheap]

theorem connected_write {c : CRPCClient} (hs : ∀ q, (s.heap q).m_bConn = true → (s.heap q).isOpen = true)
    (hc : c.m_bConn = true → c.isOpen = true) :
    ∀ q, ((s.write p c).heap q).m_bConn = true → ((s.write p c).heap q).isOpen = true := by
  intro q
  by_cases hq : q = p
  · subst hq
    rw [heap_write_self]
    exact hc
  · rw [heap_write_of_ne c hq]
    exact hs q

/-- A client is changed without its flag. -/
theorem m_bBusy_write {c : CRPCClient} (h : c.m_bBusy = (s.heap p).m_bBusy) (q : RPCClientPtr) :
    ((s.write p c).heap q).m_bBusy = (s.heap q).m_bBusy := by
  by_cases hq : q = p
  · subst hq
    rw [heap_write_self, h]
  · rw [heap_write_of_ne c hq]

/-- The lock changes hands. -/
theorem Inv.mutex (h : Inv s) (m_Mutex : Option (κ × GetPhase))
    (hphase : ∀ caller phase, m_Mutex = some (caller, phase) → s.PhaseOk phase) :
    Inv { s with m_Mutex := m_Mutex } where
  inited := h.inited
  once := h.once
  busy := h.busy
  bounded := h.bounded
  connected := h.connected
  fresh := h.fresh
  phase := hphase

theorem Inv.lock (h : Inv s) (caller : κ) :
    Inv { s with m_Mutex := some (caller, .looking s.pool) } := by
  apply h.mutex _
  intro _ _ heq
  cases heq
  exact fun p hp => hp

theorem Inv.unlock (h : Inv s) : Inv { s with m_Mutex := none } := h.mutex none nofun

theorem Inv.look (h : Inv s) {rest : List RPCClientPtr} (hm : s.m_Mutex = some (caller, .looking (p :: rest))) :
    Inv { s with m_Mutex := some (caller, if (s.heap p).m_bBusy then .looking rest else .found p) } := by
  have hall := h.phase caller _ hm
  apply h.mutex _
  intro _ _ heq
  cases heq
  split
  · exact fun q hq => hall q (List.mem_cons_of_mem p hq)
  · next hbusy => exact ⟨hall p List.mem_cons_self, Bool.not_eq_true _ ▸ hbusy⟩

/-- A client whose flag is set is handed out. -/
theorem m_bBusy_handOut {c : CRPCClient} (hbusy : c.m_bBusy = true)
    (h : q ≠ p → ((s.heap q).m_bBusy = true ↔ q ∈ s.out)) :
    ((s.write p c).heap q).m_bBusy = true ↔ q ∈ p :: s.out := by
  rw [List.mem_cons]
  by_cases hqp : q = p
  · subst hqp
    rw [heap_write_self]
    exact iff_of_true hbusy (Or.inl rfl)
  · rw [heap_write_of_ne _ hqp, or_iff_right hqp]
    exact h hqp

theorem Inv.take (h : Inv s) (hm : s.m_Mutex = some (caller, .found p)) :
    Inv { s.write p ((s.heap p).SetWorkStatus true) with
      m_Mutex := none
      held := (caller, p, .handed) :: s.held } := by
  obtain ⟨hpool, hidle⟩ := h.phase caller _ hm
  have hout : p ∉ s.out := by
    rw [← h.busy p hpool, hidle]
    exact Bool.false_ne_true
  exact {
    inited := h.inited
    once := List.nodup_cons.mpr ⟨hout, h.once⟩
    busy := fun q hq => m_bBusy_handOut rfl fun _ => h.busy q hq
    bounded := h.bounded
    connected := connected_write h.connected (h.connected p)
    fresh := fun q hq => by
      rcases hq with hq | hq
      · exact h.fresh q (Or.inl hq)
      · rcases List.mem_cons.mp hq with rfl | hq
        · exact h.fresh _ (Or.inl hpool)
        · exact h.fresh q (Or.inr hq)
    phase := fun _ _ heq => nomatch heq }

/-- The number of a client that is made is new to the pool and to the callers. -/
theorem Inv.next_fresh (h : Inv s) : s.next ∉ s.pool ∧ s.next ∉ s.out := by
  constructor
  · intro hp
    exact Nat.lt_irrefl _ (h.fresh _ (Or.inl hp))
  · intro hp
    exact Nat.lt_irrefl _ (h.fresh _ (Or.inr hp))

theorem pool_addClient (c : CRPCClient) :
    (s.addClient caller c).pool =
      if s.mng.m_nMaxRpcConn > s.pool.length then s.pool ++ [s.next] else s.pool := by
  unfold addClient pool
  split
  · rfl
  · rfl

theorem Inv.addClient (h : Inv s) (caller : κ) : Inv (s.addClient caller ⟨true, true, true⟩) := by
  obtain ⟨hpool, hout⟩ := h.next_fresh
  have hmem : ∀ q ∈ (s.addClient caller ⟨true, true, true⟩).pool, q ∈ s.pool ∨ q = s.next := by
    intro q hq
    rw [pool_addClient] at hq
    split at hq
    · rcases List.mem_append.mp hq with hq | hq
      · exact Or.inl hq
      · exact Or.inr (List.mem_singleton.mp hq)
    · exact Or.inl hq
  have hmng : (s.addClient caller ⟨true, true, true⟩).mng.m_bInited = s.mng.m_bInited ∧
      (s.addClient caller ⟨true, true, true⟩).mng.m_nMaxRpcConn = s.mng.m_nMaxRpcConn := by
    unfold Rpcs.addClient
    split
    · exact ⟨rfl, rfl⟩
    · exact ⟨rfl, rfl⟩
  exact {
    inited := hmng.1.trans h.inited
    once := List.nodup_cons.mpr ⟨hout, h.once⟩
    busy := fun q hq => m_bBusy_handOut rfl fun hqn => h.busy q ((hmem q hq).resolve_right hqn)
    bounded := by
      rw [pool_addClient, hmng.2]
      have hle := h.bounded
      split
      · rw [List.length_append, List.length_singleton]
        push_cast
        omega
      · exact hle
    connected := connected_write h.connected fun _ => rfl
    fresh := fun q hq => by
      show q < s.next + 1
      rcases hq with hq | hq
      · rcases hmem q hq with hq | rfl
        · exact Nat.lt_succ_of_lt (h.fresh q (Or.inl hq))
        · exact Nat.lt_succ_self _
      · rcases List.mem_cons.mp hq with rfl | hq
        · exact Nat.lt_succ_self _
        · exact Nat.lt_succ_of_lt (h.fresh q (Or.inr hq))
    phase := fun _ _ heq => nomatch heq }

section Callers

variable [DecidableEq κ]

theorem out_advance_perm {phase : CallPhase} (hmem : (caller, p, phase) ∈ s.held) (phase' : CallPhase) :
    (s.advance caller p phase phase').out.Perm s.out :=
  ((List.perm_cons_erase hmem).map fun h : κ × RPCClientPtr × CallPhase => h.2.1).symm

/-- A caller goes on with its call, and its client keeps its flag. -/
theorem Inv.advance (h : Inv s) {phase : CallPhase} (phase' : CallPhase) {c : CRPCClient}
    (hmem : (caller, p, phase) ∈ s.held) (hbusy : c.m_bBusy = (s.heap p).m_bBusy)
    (hconn : c.m_bConn = true → c.isOpen = true) : Inv ((s.write p c).advance caller p phase phase') := by
  have hperm : ((s.write p c).advance caller p phase phase').out.Perm s.out := out_advance_perm hmem phase'
  have hflag := m_bBusy_write (s := s) hbusy
  exact {
    inited := h.inited
    once := hperm.nodup_iff.mpr h.once
    busy := fun q hq => by
      rw [hperm.mem_iff]
      exact (Bool.eq_iff_iff.mp (hflag q)).trans (h.busy q hq)
    bounded := h.bounded
    connected := connected_write h.connected hconn
    fresh := fun q hq => h.fresh q (hq.imp_right hperm.mem_iff.mp)
    phase := fun k phase heq => by
      have hok := h.phase k phase heq
      cases phase with
      | looking rest => exact hok
      | found q => exact ⟨hok.1, (hflag q).trans hok.2⟩ }

/-- A call ends: the client is idle again, or deleted when it is not in the pool. -/
theorem Inv.release (h : Inv s) {phase : CallPhase} (hmem : (caller, p, phase) ∈ s.held) {c : CRPCClient}
    (hbusy : c.m_bBusy = false) (hconn : c.m_bConn = true → c.isOpen = true) :
    Inv { s.write p c with held := s.held.erase (caller, p, phase) } := by
  have hperm : s.out.Perm (p :: (s.held.erase (caller, p, phase)).map fun h => h.2.1) :=
    (List.perm_cons_erase hmem).map fun h : κ × RPCClientPtr × CallPhase => h.2.1
  obtain ⟨hnot, hnodup⟩ := List.nodup_cons.mp (hperm.nodup_iff.mp h.once)
  exact {
    inited := h.inited
    once := hnodup
    busy := fun q hq => by
      show ((s.write p c).heap q).m_bBusy = true ↔ q ∈ (s.held.erase (caller, p, phase)).map fun h => h.2.1
      by_cases hqp : q = p
      · subst hqp
        rw [heap_write_self, hbusy]
        exact iff_of_false Bool.false_ne_true hnot
      · rw [heap_write_of_ne _ hqp, h.busy q hq, hperm.mem_iff, List.mem_cons, or_iff_right hqp]
    bounded := h.bounded
    connected := connected_write h.connected hconn
    fresh := fun q hq => h.fresh q (hq.imp_right fun hq => hperm.mem_iff.mpr (List.mem_cons_of_mem p hq))
    phase := fun k phase heq => by
      have hok := h.phase k phase heq
      cases phase with
      | looking rest => exact hok
      | found q =>
        refine ⟨hok.1, ?_⟩
        show ((s.write p c).heap q).m_bBusy = false
        by_cases hqp : q = p
        · subst hqp
          rw [heap_write_self, hbusy]
        · rw [heap_write_of_ne _ hqp]
          exact hok.2 }

/-- Every step keeps the invariant. -/
theorem Inv.step (h : Inv s) (e : RpcEvent κ) (hstep : s.step e = some s') : Inv s' := by
  cases e with
  | lock caller =>
    simp only [Rpcs.step] at hstep
    split at hstep
    · cases hstep
      exact h.lock caller
    · cases hstep
  | look =>
    simp only [Rpcs.step] at hstep
    split at hstep
    · next hm =>
      cases hstep
      exact h.look hm
    · cases hstep
  | take =>
    simp only [Rpcs.step] at hstep
    split at hstep
    · next hm =>
      cases hstep
      exact h.take hm
    · cases hstep
  | create bOpen =>
    simp only [Rpcs.step] at hstep
    split at hstep
    · split at hstep
      · next hc =>
        cases hstep
        rw [CreateClientService_true hc]
        exact h.addClient _
      · cases hstep
        exact h.unlock
    · cases hstep
  | openConn caller p bOpen =>
    simp only [Rpcs.step, h.inited, Bool.not_true, Bool.false_eq_true, if_false] at hstep
    split at hstep
    · next hmem =>
      have hbusy := m_bBusy_OpenRPCConn (s.heap p) bOpen
      have hconn := connected_OpenRPCConn (h.connected p) bOpen
      split at hstep
      · next hc =>
        cases hstep
        rw [hc] at hbusy hconn
        exact h.advance .running hmem hbusy hconn
      · next hc =>
        cases hstep
        rw [hc] at hbusy hconn
        exact h.advance .done hmem hbusy hconn
    · cases hstep
  | callFunc caller p funcEnd =>
    simp only [Rpcs.step] at hstep
    split at hstep
    · next hmem =>
      cases funcEnd with
      | normal =>
        cases hstep
        rw [← write_heap (s := s) (p := p)]
        exact h.advance .done hmem rfl (h.connected p)
      | exception =>
        cases hstep
        exact h.advance .done hmem rfl fun hc => absurd hc Bool.false_ne_true
    · cases hstep
  | release caller p =>
    simp only [Rpcs.step] at hstep
    split at hstep
    · next hmem =>
      cases hstep
      split
      · exact h.release hmem rfl (h.connected p)
      · exact h.release hmem rfl fun hc => absurd hc Bool.false_ne_true
    · cases hstep

end Callers

end Rpcs

end Perception.Rpc
