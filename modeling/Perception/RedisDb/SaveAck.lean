import Perception.Lib.History
import Perception.RedisDb.RedisMng

/-!
# What a saved text rests on

One call after the other makes one connection and keeps it. A call that is not answered
and cannot reconnect leaves it closed, and on a closed connection every call succeeds.
-/
namespace Perception.RedisDb

set_option autoImplicit false

open Perception.Lib History
open Perception.Db (c_str)

/-- Calls of `RedisSaveData`, one after the other. -/
def saves (w : World) (c : SaveCall) : Option World := (RedisSaveData w c).map Prod.fst

/-- If the call returns true, the server answered its `RPUSH` with an integer. -/
def Acked (w : World) (c : SaveCall) : Prop :=
  ∀ w' log, RedisSaveData w c = some (w', true, log) → ∃ a ∈ log, a.reply = some .INTEGER

/-- A new connection of the pool can be opened. -/
def connects (a : InitArgs) (c : SaveCall) : Bool := ((World.Init a).newRedis.connect c.connect).2

/-- The first attempt is not answered with an integer, and there is no context after it. -/
def Loses (c : SaveCall) : Prop := c.push.reply ≠ some .INTEGER ∧ c.push.reConnect.context = false

/-- From the first call that connects on, only the last loses its connection. -/
def LostLast (a : InitArgs) (calls : List SaveCall) : Prop :=
  ∀ c ∈ (calls.dropWhile fun c => !connects a c).dropLast, ¬ Loses c

theorem FSRedis.connect_open (config : FSRedisConfig) (env : ConnectEnv) :
    (FSRedis.connect config env).1.m_pContext.isSome = env.context ∧
      ((FSRedis.connect config env).2 = true → env.context = true) := by
  unfold FSRedis.connect
  cases env.context with
  | false => exact ⟨rfl, nofun⟩
  | true =>
    cases env.setTimeout with
    | false => exact ⟨rfl, nofun⟩
    | true =>
      cases config.pwd.isEmpty with
      | true => exact ⟨rfl, fun _ => rfl⟩
      | false =>
        refine ⟨?_, fun _ => rfl⟩
        cases env.auth with
        | none => rfl
        | some t => cases t <;> rfl

/-- With a context the command is sent, and 0 returned only for an integer. -/
theorem FSRedis.pushStringToList_open {db : FSRedis} (hopen : db.m_pContext.isSome = true) (list_name value : String)
    (reply : Option ReplyType) : db.pushStringToList list_name value reply =
      (if reply = some .INTEGER then 0 else -1, [⟨"RPUSH " ++ list_name ++ " " ++ value, reply⟩]) := by
  obtain ⟨ctx, hctx⟩ := Option.isSome_iff_exists.mp hopen
  unfold FSRedis.pushStringToList
  rw [hctx]
  cases reply with
  | none => rfl
  | some t => cases t <;> rfl

/-- On an open connection success is an integer reply; the connection is closed
afterwards when the call loses it. -/
theorem Redis.rpush_list_open {r : Redis} (hopen : r.db.m_pContext.isSome = true) (key pData : String) (env : PushEnv) :
    ∃ r' s32Ret log, r.rpush_list key pData env = (r', s32Ret, log) ∧
      (s32Ret = 0 → ∃ a ∈ log, a.reply = some .INTEGER) ∧
      (r'.db.m_pContext.isSome = true ↔ ¬ (env.reply ≠ some .INTEGER ∧ env.reConnect.context = false)) ∧
      r'.m_pool_index = r.m_pool_index := by
  have hlog : ∃ a ∈ [(⟨"RPUSH " ++ c_str key ++ " " ++ pData, env.reply⟩ : Answer)], a.reply = env.reply :=
    ⟨_, List.mem_singleton_self _, rfl⟩
  unfold Redis.rpush_list
  rw [FSRedis.pushStringToList_open hopen]
  generalize [(⟨"RPUSH " ++ c_str key ++ " " ++ pData, env.reply⟩ : Answer)] = log at hlog
  by_cases hint : env.reply = some .INTEGER
  · rw [if_pos hint]
    refine ⟨r, 0, log, rfl, fun _ => hint ▸ hlog, ?_, rfl⟩
    exact iff_of_true hopen fun hlost => hlost.1 hint
  · rw [if_neg hint]
    obtain ⟨hcontext, hok⟩ := FSRedis.connect_open r.conf env.reConnect
    have hopen' : ((FSRedis.connect r.conf env.reConnect).1.m_pContext.isSome = true ↔
        ¬ (env.reply ≠ some .INTEGER ∧ env.reConnect.context = false)) := by
      rw [hcontext]
      simp [hint]
    cases hconn : (FSRedis.connect r.conf env.reConnect).2 with
    | false =>
      have hre : r.reConnect env.reConnect = ({ r with db := (FSRedis.connect r.conf env.reConnect).1 }, false) := by
        rw [← hconn]
        rfl
      refine ⟨{ r with db := (FSRedis.connect r.conf env.reConnect).1 }, -1, log, ?_, nofun, hopen', rfl⟩
      simp only [hre, show ¬ (0 : Int) ≤ -1 by decide, if_false]
    | true =>
      have hre : r.reConnect env.reConnect = ({ r with db := (FSRedis.connect r.conf env.reConnect).1 }, true) := by
        rw [← hconn]
        rfl
      have hpush' := FSRedis.pushStringToList_open (hcontext.trans (hok hconn)) (c_str key) pData env.retry
      refine ⟨{ r with db := (FSRedis.connect r.conf env.reConnect).1 },
        if env.retry = some .INTEGER then 0 else -1,
        log ++ [⟨"RPUSH " ++ c_str key ++ " " ++ pData, env.retry⟩], ?_, ?_, hopen', rfl⟩
      · simp only [hre, show ¬ (0 : Int) ≤ -1 by decide, if_false, hpush']
      · intro hzero
        by_cases hint' : env.retry = some .INTEGER
        · exact ⟨_, List.mem_append_right _ (List.mem_singleton_self _), hint'⟩
        · rw [if_neg hint'] at hzero
          cases hzero

theorem Redis.rpush_list_closed {r : Redis} (hclosed : r.db.m_pContext = none) (key pData : String) (env : PushEnv) :
    r.rpush_list key pData env = (r, 0, []) := by
  unfold Redis.rpush_list FSRedis.pushStringToList
  rw [hclosed]
  rfl

/-- No connection was made yet. -/
def Unused (a : InitArgs) (w : World) : Prop := w.mng = .Init a

/-- The pool has one connection, and that is free. -/
structure Reusable (w : World) (r : Redis) : Prop where
  current : w.mng.m_currentConnections = 1
  free : ∃ fs, w.mng.m_is_free = true :: fs
  conn : ∃ p ps, w.mng.m_connections = some p :: ps ∧ w.deref p = some r
  index : r.m_pool_index = 0

/-- The first connection of the pool, as `Get` gives it. -/
structure Given (w : World) (p : Addr) (r : Redis) : Prop where
  current : w.mng.m_currentConnections = 1
  free : ∃ b fs, w.mng.m_is_free = b :: fs
  conn : ∃ ps, w.mng.m_connections = some p :: ps
  deref : w.deref p = some r
  index : r.m_pool_index = 0

/-- It comes back as what the work has made of it. -/
theorem Given.put {w : World} {p : Addr} {r r' : Redis} (hg : Given w p r) (hindex : r'.m_pool_index = 0) :
    ∃ w', World.Put { w with heap := w.heap.set p (some r') } (some p) true = some w' ∧ Reusable w' r' := by
  obtain ⟨b, fs, hfree⟩ := hg.free
  obtain ⟨ps, hconn⟩ := hg.conn
  have hderef : World.deref { w with heap := w.heap.set p (some r') } p = some r' := by
    unfold World.deref
    rw [List.getElem?_set_self (World.lt_of_deref hg.deref)]
    rfl
  refine ⟨World.setFree { w with heap := w.heap.set p (some r') } 0 true, ?_, hg.current, ⟨fs, ?_⟩,
    ⟨p, ps, hconn, hderef⟩, hindex⟩
  · rw [World.Put, hderef, ← hindex]
    rfl
  · show w.mng.m_is_free.set 0 true = true :: fs
    rw [hfree]
    rfl

/-- A call that gets the first connection of the pool. -/
theorem RedisSaveData_given {w w₁ : World} {c : SaveCall} {p : Addr} {r r' : Redis} {s32Ret : Int}
    {log : List Answer} (hget : w.Get true c.connect = (w₁, some p, true)) (hg : Given w₁ p r)
    (hpush : r.rpush_list c.strKey (c_str c.strData) c.push = (r', s32Ret, log))
    (hindex : r'.m_pool_index = r.m_pool_index) :
    ∃ w', RedisSaveData w c = some (w', s32Ret == 0, log) ∧ Reusable w' r' := by
  obtain ⟨w', hput, hw'⟩ := hg.put (hindex.trans hg.index)
  refine ⟨w', ?_, hw'⟩
  unfold RedisSaveData
  simp only [hget, hg.deref, Option.bind_eq_bind, Option.bind_some, hpush, hput]
  rfl

theorem Reusable.get {w : World} {r : Redis} (hw : Reusable w r) (env : ConnectEnv) :
    ∃ w₁ p, w.Get true env = (w₁, some p, true) ∧ Given w₁ p r := by
  obtain ⟨fs, hfree⟩ := hw.free
  obtain ⟨p, ps, hconn, hr⟩ := hw.conn
  have hget : w.Get true env = (w.setFree 0 false, some p, true) := by
    unfold World.Get World.flags
    rw [hw.current, hfree, hconn]
    rfl
  have hfree' : (w.setFree 0 false).mng.m_is_free = false :: fs := by
    show w.mng.m_is_free.set 0 false = _
    rw [hfree]
    rfl
  exact ⟨_, p, hget, hw.current, ⟨false, fs, hfree'⟩, ⟨ps, hconn⟩, hr, hw.index⟩

theorem RedisSaveData_reusable {w : World} {r r' : Redis} (hw : Reusable w r) {c : SaveCall} {s32Ret : Int}
    {log : List Answer} (hpush : r.rpush_list c.strKey (c_str c.strData) c.push = (r', s32Ret, log))
    (hindex : r'.m_pool_index = r.m_pool_index) :
    ∃ w', RedisSaveData w c = some (w', s32Ret == 0, log) ∧ Reusable w' r' := by
  obtain ⟨w₁, p, hget, hg⟩ := hw.get c.connect
  exact RedisSaveData_given hget hg hpush hindex

theorem Unused.connect {a : InitArgs} {w : World} (hw : Unused a w) (env : ConnectEnv) :
    w.newRedis.connect env = (World.Init a).newRedis.connect env := by
  unfold World.newRedis
  rw [hw]
  rfl

theorem Unused.Get {a : InitArgs} {w : World} (hw : Unused a w) (env : ConnectEnv) :
    w.Get true env = w.newConnection true env := by
  apply World.Get_of_none
  unfold World.flags
  rw [hw]
  rfl

/-- A call before any connection that cannot connect fails and leaves the pool as it is. -/
theorem RedisSaveData_refused {a : InitArgs} {w : World} (hw : Unused a w) {c : SaveCall}
    (hno : connects a c = false) : ∃ w', RedisSaveData w c = some (w', false, []) ∧ Unused a w' := by
  have hget : w.Get true c.connect = ({ w with heap := w.heap ++ [none] }, none, true) := by
    rw [hw.Get]
    apply World.newConnection_refused
    rw [hw.connect]
    exact hno
  refine ⟨{ w with heap := w.heap ++ [none] }, ?_, hw⟩
  unfold RedisSaveData
  rw [hget]

/-- All places of the pool are free, and there is one. -/
theorem Unused.pool {a : InitArgs} {w : World} (hw : Unused a w) :
    w.mng.m_currentConnections = 0 ∧ 0 < w.mng.m_maxConnections ∧
      ∃ n, w.mng.m_is_free = List.replicate (n + 1) true ∧ w.mng.m_connections = List.replicate (n + 1) none := by
  have hpos : 0 < maxOf a.maxConnections a.initConnections := maxOf_pos a.maxConnections a.initConnections
  obtain ⟨n, hn⟩ : ∃ n, (maxOf a.maxConnections a.initConnections).toNat = n + 1 :=
    Nat.exists_eq_succ_of_ne_zero (by omega)
  rw [hw]
  refine ⟨rfl, hpos, n, ?_, ?_⟩
  · rw [← hn]
    rfl
  · rw [← hn]
    rfl

/-- The first connection of the pool, with the first call that connects. -/
theorem Unused.get {a : InitArgs} {w : World} (hw : Unused a w) {env : ConnectEnv}
    (hyes : ((World.Init a).newRedis.connect env).2 = true) :
    ∃ w₁ p r, w.Get true env = (w₁, some p, true) ∧ Given w₁ p r ∧ r.db.m_pContext.isSome = true := by
  have hok : (w.newRedis.connect env).2 = true := by
    rw [hw.connect]
    exact hyes
  obtain ⟨hzero, hmax, n, hfree, hconn⟩ := hw.pool
  have hroom : ¬ (w.mng.m_currentConnections : Int) ≥ w.mng.m_maxConnections := by
    rw [hzero]
    omega
  have hget := (hw.Get env).trans (World.newConnection_long hok hroom)
  have hopen : (w.newRedis.connect env).1.db.m_pContext.isSome = true := by
    obtain ⟨hcontext, hcontext'⟩ := FSRedis.connect_open w.newRedis.conf env
    exact hcontext.trans (hcontext' hok)
  have hfree' : (w.store (w.newRedis.connect env).1).mng.m_is_free = true :: List.replicate n true := by
    show w.mng.m_is_free.set w.mng.m_currentConnections true = _
    rw [hzero, hfree]
    rfl
  have hconn' : (w.store (w.newRedis.connect env).1).mng.m_connections =
      some w.heap.length :: List.replicate n none := by
    show w.mng.m_connections.set w.mng.m_currentConnections (some w.heap.length) = _
    rw [hzero, hconn]
    rfl
  have hderef : (w.store (w.newRedis.connect env).1).deref w.heap.length =
      some ((w.newRedis.connect env).1.setPoolIndex 0) := by
    apply World.deref_eq_some.mpr
    show (w.heap ++ [_])[w.heap.length]? = _
    rw [List.getElem?_concat_length, hzero]
  have hcurrent : (w.store (w.newRedis.connect env).1).mng.m_currentConnections = 1 := by
    show w.mng.m_currentConnections + 1 = 1
    rw [hzero]
  exact ⟨_, w.heap.length, _, hget, ⟨hcurrent, ⟨true, _, hfree'⟩, ⟨_, hconn'⟩, hderef, rfl⟩, hopen⟩

/-- A call before any connection that connects has the first connection of the pool. -/
theorem RedisSaveData_connects {a : InitArgs} {w : World} (hw : Unused a w) {c : SaveCall}
    (hyes : connects a c = true) :
    ∃ r : Redis, r.db.m_pContext.isSome = true ∧ ∀ r' s32Ret log,
      r.rpush_list c.strKey (c_str c.strData) c.push = (r', s32Ret, log) → r'.m_pool_index = r.m_pool_index →
      ∃ w', RedisSaveData w c = some (w', s32Ret == 0, log) ∧ Reusable w' r' := by
  obtain ⟨w₁, p, r, hget, hg, hopen⟩ := hw.get hyes
  exact ⟨r, hopen, fun r' s32Ret log hpush hindex => RedisSaveData_given hget hg hpush hindex⟩

theorem saves_of {w w' : World} {c : SaveCall} {b : Bool} {log : List Answer}
    (h : RedisSaveData w c = some (w', b, log)) : saves w c = some w' := by
  unfold saves
  rw [h]
  rfl

theorem acked_of {w w' : World} {c : SaveCall} {b : Bool} {log : List Answer}
    (h : RedisSaveData w c = some (w', b, log)) : Acked w c ↔ (b = true → ∃ a ∈ log, a.reply = some .INTEGER) := by
  unfold Acked
  rw [h]
  constructor
  · intro hacked hb
    exact hacked w' log (hb ▸ rfl)
  · intro hb w₂ log₂ heq
    cases heq
    exact hb rfl

/-- On a closed connection each call returns true and sends nothing. -/
theorem saves_closed {w : World} {r : Redis} (hw : Reusable w r) (hclosed : r.db.m_pContext = none)
    (calls : List SaveCall) :
    (∃ w', run saves w calls = some w') ∧ (EachStep saves Acked w calls ↔ calls = []) := by
  induction calls generalizing w with
  | nil => exact ⟨⟨w, rfl⟩, iff_of_true eachStep_nil rfl⟩
  | cons c calls ih =>
    obtain ⟨w', hsave, hw'⟩ := RedisSaveData_reusable hw (Redis.rpush_list_closed hclosed _ _ _) rfl
    rw [run_cons_of_step (saves_of hsave), eachStep_cons_of_step (saves_of hsave), acked_of hsave]
    refine ⟨(ih hw').1, iff_of_false (fun h => ?_) (List.cons_ne_nil c calls)⟩
    obtain ⟨a, ha, -⟩ := h.1 rfl
    cases ha

theorem forall_mem_dropLast_cons {α : Type} {P : α → Prop} {x : α} {xs : List α} :
    (∀ y ∈ (x :: xs).dropLast, P y) ↔ (P x ∨ xs = []) ∧ ∀ y ∈ xs.dropLast, P y := by
  cases xs with
  | nil => simp
  | cons y ys => simp only [List.dropLast_cons_cons, List.forall_mem_cons, reduceCtorEq, or_false]

/-- A call on an open connection, and those that follow. -/
theorem saves_cons {w : World} {r : Redis} {c : SaveCall} {calls : List SaveCall}
    (hopen : r.db.m_pContext.isSome = true)
    (hsave : ∀ r' s32Ret log, r.rpush_list c.strKey (c_str c.strData) c.push = (r', s32Ret, log) →
      r'.m_pool_index = r.m_pool_index → ∃ w', RedisSaveData w c = some (w', s32Ret == 0, log) ∧ Reusable w' r')
    (hnext : ∀ w' r', Reusable w' r' → r'.db.m_pContext.isSome = true → (∃ w₂, run saves w' calls = some w₂) ∧
      (EachStep saves Acked w' calls ↔ ∀ c ∈ calls.dropLast, ¬ Loses c)) :
    (∃ w', run saves w (c :: calls) = some w') ∧
      (EachStep saves Acked w (c :: calls) ↔ ∀ d ∈ (c :: calls).dropLast, ¬ Loses d) := by
  obtain ⟨r', s32Ret, log, hpush, hzero, hopen', hindex⟩ :=
    Redis.rpush_list_open hopen c.strKey (c_str c.strData) c.push
  obtain ⟨w', hsave, hw'⟩ := hsave r' s32Ret log hpush hindex
  have hacked : Acked w c := by
    apply (acked_of hsave).mpr
    intro hret
    exact hzero (eq_of_beq hret)
  rw [run_cons_of_step (saves_of hsave), eachStep_cons_of_step (saves_of hsave),
    forall_mem_dropLast_cons (P := fun c => ¬ Loses c), and_iff_right hacked]
  by_cases hlost : Loses c
  · have hclosed : r'.db.m_pContext = none := by
      apply Option.not_isSome_iff_eq_none.mp
      intro hsome
      exact hopen'.mp hsome hlost
    obtain ⟨hrun, heach⟩ := saves_closed hw' hclosed calls
    refine ⟨hrun, heach.trans ⟨fun hnil => ?_, fun h => h.1.resolve_left (not_not_intro hlost)⟩⟩
    subst hnil
    refine ⟨.inr rfl, fun c hc => ?_⟩
    cases hc
  · obtain ⟨hrun, heach⟩ := hnext w' r' hw' (hopen'.mpr hlost)
    exact ⟨hrun, heach.trans (and_iff_right (.inl hlost)).symm⟩

theorem saves_open {w : World} {r : Redis} (hw : Reusable w r) (hopen : r.db.m_pContext.isSome = true)
    (calls : List SaveCall) : (∃ w', run saves w calls = some w') ∧
      (EachStep saves Acked w calls ↔ ∀ c ∈ calls.dropLast, ¬ Loses c) := by
  induction calls generalizing w r with
  | nil =>
    refine ⟨⟨w, run_nil⟩, iff_of_true eachStep_nil fun c hc => ?_⟩
    cases hc
  | cons c calls ih =>
    refine saves_cons hopen (fun r' s32Ret log hpush hindex => ?_) fun w' r' hw' hopen' => ih hw' hopen'
    exact RedisSaveData_reusable hw hpush hindex

theorem saves_unused {a : InitArgs} {w : World} (hw : Unused a w) (calls : List SaveCall) :
    (∃ w', run saves w calls = some w') ∧ (EachStep saves Acked w calls ↔ LostLast a calls) := by
  unfold LostLast
  induction calls generalizing w with
  | nil =>
    refine ⟨⟨w, run_nil⟩, iff_of_true eachStep_nil fun c hc => ?_⟩
    cases hc
  | cons c calls ih =>
    cases hc : connects a c with
    | false =>
      obtain ⟨w', hsave, hw'⟩ := RedisSaveData_refused hw hc
      have hacked : Acked w c := (acked_of hsave).mpr nofun
      rw [run_cons_of_step (saves_of hsave), eachStep_cons_of_step (saves_of hsave), and_iff_right hacked,
        List.dropWhile_cons_of_pos (by rw [hc]; rfl)]
      exact ih hw'
    | true =>
      obtain ⟨r, hopen, hsave⟩ := RedisSaveData_connects hw hc
      rw [List.dropWhile_cons_of_neg (by rw [hc]; decide)]
      exact saves_cons hopen hsave fun w' r' hw' hopen' => saves_open hw' hopen' calls

/-- **What a saved text rests on.** In every sequence of calls after `Init`, each call that
returns true was answered with an integer exactly when, from the first call that connects
on, only the last can be one that loses its connection. -/
theorem save_acknowledged_iff (a : InitArgs) (calls : List SaveCall) :
    (∃ w, run saves (World.Init a) calls = some w) ∧
      (EachStep saves Acked (World.Init a) calls ↔ LostLast a calls) :=
  saves_unused (show (World.Init a).mng = .Init a from rfl) calls

def localArgs : InitArgs := ⟨"127.0.0.1", "", 47393, 2, 5, 20, 10⟩

/-- The server is reached, but the first command is lost and the server is gone then. -/
def lostCall : SaveCall := ⟨"alarm", "1|0", ⟨true, true, none⟩, ⟨none, ⟨false, true, none⟩, none⟩⟩

/-- After a lost connection a text that is not sent is reported as saved. -/
theorem not_save_acknowledged_closed : ∃ w w',
    run saves (World.Init localArgs) [lostCall] = some w ∧ RedisSaveData w lostCall = some (w', true, []) ∧
      ¬ EachStep saves Acked (World.Init localArgs) [lostCall, lostCall] := by
  obtain ⟨w, hrun, w', hsave⟩ : ∃ w, run saves (World.Init localArgs) [lostCall] = some w ∧
      ∃ w', RedisSaveData w lostCall = some (w', true, []) := ⟨_, rfl, _, rfl⟩
  refine ⟨w, w', hrun, hsave, fun h => ?_⟩
  obtain ⟨a, ha, -⟩ := h [lostCall] lostCall [] w rfl hrun w' [] hsave
  cases ha

end Perception.RedisDb
