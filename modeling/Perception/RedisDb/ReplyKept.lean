import Perception.Lib.Traced
import Perception.RedisDb.Command
import Perception.RedisDb.SaveAck

/-!
# The reply that an object keeps

A `Redis` object has one `FSRedisData`, which reads and deletions share. A reply that is
received takes the place of the one before; a read appends what is there then, and does not
look at how its second attempt went.
-/
namespace Perception.RedisDb

set_option autoImplicit false

open Perception.Lib
open Perception.Db (c_str)

/-- A command, as a format with its arguments. -/
structure Command where
  format : String
  args : List String

/-- A command that was sent, with the reply that was received. -/
structure Sent where
  cmd : Command
  reply : Option Reply

namespace FSRedis

/-- `redisCommand` behind `_CHECK_CONNECT`: nothing is sent without a context. -/
def send (db : FSRedis) (cmd : Command) (reply : Option Reply) : List Sent :=
  match db.m_pContext with
  | none => []
  | some _ => [⟨cmd, reply⟩]

def rangeCmd (list_name : String) : Command := ⟨"LRANGE " ++ list_name ++ " 0 -1", []⟩

def shiftCmd (list_name : String) : Command := ⟨"LPOP %s", [list_name]⟩

def delCmd (key : String) : Command := ⟨"%s", ["LPOP " ++ key]⟩

/-- `reply->integer` of a reply that is no number is 0. -/
def delKey (db : FSRedis) (key : String) (reply : Option Reply) : Bool × List Sent :=
  match db.m_pContext, reply with
  | some _, some (.INTEGER n) => (0 < n, db.send (delCmd key) reply)
  | _, _ => (false, db.send (delCmd key) reply)

end FSRedis

structure FSRedisData where
  m_pReply : Option Reply

namespace FSRedisData

def new : FSRedisData := ⟨none⟩

/-- The strings of an array; any other reply has no elements. -/
def strings (data : FSRedisData) : List (List Char) := (data.m_pReply.map Reply.elements).getD []

/-- Whether a reply was received, which is then kept in place of the one before. -/
def fetch (outdata : FSRedisData) (db : FSRedis) (cmd : Command) (reply : Option Reply) : Bool × FSRedisData × List Sent :=
  match db.m_pContext, reply with
  | some _, some r => (true, ⟨some r⟩, db.send cmd reply)
  | _, _ => (false, outdata, db.send cmd reply)

/-- All of a list. -/
def getDataFromList (outdata : FSRedisData) (db : FSRedis) (list_name : String) :
    Option Reply → Bool × FSRedisData × List Sent := outdata.fetch db (FSRedis.rangeCmd list_name)

def shiftDataFromList (outdata : FSRedisData) (db : FSRedis) (list_name : String) :
    Option Reply → Bool × FSRedisData × List Sent := outdata.fetch db (FSRedis.shiftCmd list_name)

end FSRedisData

/-- What happens to a call: the replies to its two attempts, and to the reconnection between. -/
structure ReplyEnv where
  reply : Option Reply
  reConnect : ConnectEnv
  retry : Option Reply

/-- A client object with the reply that it keeps. -/
structure RedisObject where
  redis : Redis
  data : FSRedisData

namespace RedisObject

def new (redis : Redis) : RedisObject := ⟨redis, .new⟩

/-- The object, and what its first and its second attempt sent. -/
def del_list (o : RedisObject) (key : String) (env : ReplyEnv) : RedisObject × List Sent × List Sent :=
  let (bRet, data, sent) := o.data.shiftDataFromList o.redis.db (c_str key) env.reply
  if bRet then (⟨o.redis, data⟩, sent, [])
  else
    match o.redis.reConnect env.reConnect with
    | (redis, true) => (⟨redis, data⟩, sent, (redis.db.delKey (c_str key) env.retry).2)
    | (redis, false) => (⟨redis, data⟩, sent, [])

/-- The object, what it sent, and what is appended. -/
def lrange_list (o : RedisObject) (key : String) (env : ReplyEnv) : RedisObject × List Sent × List (List Char) :=
  let (bRet, data, sent) := o.data.getDataFromList o.redis.db (c_str key) env.reply
  if bRet then (⟨o.redis, data⟩, sent, data.strings)
  else
    match o.redis.reConnect env.reConnect with
    | (redis, true) =>
      let (_, data, again) := data.getDataFromList redis.db (c_str key) env.retry
      (⟨redis, data⟩, sent ++ again, data.strings)
    | (redis, false) => (⟨redis, data⟩, sent, [])

end RedisObject

inductive Op
  | rpush_list (key pData : String) (env : PushEnv)
  | del_list (key : String) (env : ReplyEnv)
  | lrange_list (key : String) (env : ReplyEnv)

/-- What a call did. -/
inductive Event
  | pushed (log : List Answer)
  | deleted (sent again : List Sent)
  | read (key : String) (sent : List Sent) (appended : List (List Char))

/-- The reply to a command that was sent. -/
def received (sent : List Sent) : Option Reply := (sent.filterMap Sent.reply).head?

def RedisObject.step (o : RedisObject) : Op → Traced Event RedisObject
  | .rpush_list key pData env =>
    let (redis, _, log) := o.redis.rpush_list key pData env
    ⟨[.pushed log], some { o with redis := redis }⟩
  | .del_list key env =>
    let (o, sent, again) := o.del_list key env
    ⟨[.deleted sent again], some o⟩
  | .lrange_list key env =>
    let (o, sent, appended) := o.lrange_list key env
    ⟨[.read key sent appended], some o⟩

/-- All that was sent is the command. -/
def OnlySent (cmd : Command) (sent : List Sent) : Prop := ∀ a ∈ sent, a.cmd = cmd

/-- A read sends the `LRANGE` for its key, and appends what it receives, nothing if it does not. -/
def OwnReply : Event → Prop
  | .read key sent appended =>
    OnlySent (FSRedis.rangeCmd (c_str key)) sent ∧ appended = FSRedisData.strings ⟨received sent⟩
  | _ => True

/-- The reply that a call leaves in the object. -/
def Event.kept : Event → Option Reply
  | .pushed _ => none
  | .deleted sent _ => received sent
  | .read _ sent _ => received sent

/-- The last reply that the calls left. -/
def lastKept (log : List Event) : Option Reply := (log.filterMap Event.kept).getLast?

/-- Both attempts go without a reply, with a reconnection between them. -/
def LostTwice (o : RedisObject) (env : ReplyEnv) : Prop :=
  (o.redis.db.m_pContext = none ∨ env.reply = none) ∧ (o.redis.reConnect env.reConnect).2 = true ∧ env.retry = none

variable {o : RedisObject} {key : String} {env : ReplyEnv}

theorem fetch_received {outdata : FSRedisData} {db : FSRedis} (hopen : db.m_pContext.isSome = true) (cmd : Command) (r : Reply) :
    outdata.fetch db cmd (some r) = (true, ⟨some r⟩, [⟨cmd, some r⟩]) := by
  obtain ⟨ctx, hctx⟩ := Option.isSome_iff_exists.mp hopen
  simp only [FSRedisData.fetch, FSRedis.send, hctx]

theorem onlySent_one (cmd : Command) (reply : Option Reply) : OnlySent cmd [⟨cmd, reply⟩] := by
  intro a ha
  rw [List.mem_singleton.mp ha]

theorem OnlySent.append {cmd : Command} {sent again : List Sent} (h : OnlySent cmd sent) (h' : OnlySent cmd again) :
    OnlySent cmd (sent ++ again) := by
  intro a ha
  rcases List.mem_append.mp ha with ha | ha
  · exact h a ha
  · exact h' a ha

/-- Without a context or without a reply nothing is kept. -/
theorem fetch_lost {outdata : FSRedisData} {db : FSRedis} {reply : Option Reply} (hlost : db.m_pContext = none ∨ reply = none)
    (cmd : Command) :
    ∃ sent, outdata.fetch db cmd reply = (false, outdata, sent) ∧ OnlySent cmd sent ∧ received sent = none := by
  cases hctx : db.m_pContext with
  | none =>
    refine ⟨[], ?_, nofun, rfl⟩
    simp only [FSRedisData.fetch, FSRedis.send, hctx]
  | some ctx =>
    obtain rfl : reply = none := by
      rcases hlost with h | h
      · rw [hctx] at h
        cases h
      · exact h
    refine ⟨[⟨cmd, none⟩], ?_, onlySent_one cmd none, rfl⟩
    simp only [FSRedisData.fetch, FSRedis.send, hctx]

/-- A call is answered, or lost. -/
theorem fetch_cases (db : FSRedis) (reply : Option Reply) :
    (db.m_pContext.isSome = true ∧ ∃ r, reply = some r) ∨ (db.m_pContext = none ∨ reply = none) := by
  cases db.m_pContext with
  | none => exact .inr (.inl rfl)
  | some ctx =>
    cases reply with
    | none => exact .inr (.inr rfl)
    | some r => exact .inl ⟨rfl, r, rfl⟩

theorem received_append_of_none {sent : List Sent} (h : received sent = none) (again : List Sent) :
    received (sent ++ again) = received again := by
  unfold received at h ⊢
  rw [List.filterMap_append, List.head?_eq_none_iff.mp h, List.nil_append]

/-- What a successful reconnection leaves open. -/
theorem reConnect_open {r : Redis} {env : ConnectEnv} (h : (r.reConnect env).2 = true) :
    (r.reConnect env).1.db.m_pContext.isSome = true := by
  obtain ⟨hopen, hcontext⟩ := FSRedis.connect_open r.conf env
  exact hopen.trans (hcontext h)

theorem lrange_list_answered {r : Reply} (hopen : o.redis.db.m_pContext.isSome = true) (hr : env.reply = some r) :
    ∃ sent, o.lrange_list key env = (⟨o.redis, ⟨some r⟩⟩, sent, r.elements) ∧
      OnlySent (FSRedis.rangeCmd (c_str key)) sent ∧ received sent = some r := by
  have hfetch := @fetch_received o.data _ hopen (FSRedis.rangeCmd (c_str key)) r
  refine ⟨[⟨FSRedis.rangeCmd (c_str key), some r⟩], ?_, onlySent_one _ _, rfl⟩
  rw [RedisObject.lrange_list, FSRedisData.getDataFromList, hr, hfetch]
  rfl

/-- With a server that answers, the object reads what a read of that server is. -/
theorem lrange_list_agrees {r : Redis} (hopen : r.db.m_pContext.isSome = true) (format : Format) (sv : Server) (key : String)
    (data : Option Reply) (datalist : List (List Char)) :
    let strCmd := "LRANGE " ++ c_str key ++ " 0 -1"
    let first := redisCommand format sv strCmd
    let second := redisCommand format first.1 strCmd
    let call := RedisObject.lrange_list ⟨r, ⟨data⟩⟩ key ⟨first.2, stable, second.2⟩
    (r.lrange_list format sv key data datalist).1 = call.1.redis ∧
      (r.lrange_list format sv key data datalist).2.2 = datalist ++ call.2.2 := by
  obtain ⟨ctx, hctx⟩ := Option.isSome_iff_exists.mp hopen
  have hre : (r.reConnect stable).1.db.m_pContext.isSome = true := (FSRedis.connect_open r.conf stable).1
  obtain ⟨ctx', hctx'⟩ := Option.isSome_iff_exists.mp hre
  generalize hfirst : redisCommand format sv ("LRANGE " ++ c_str key ++ " 0 -1") = first
  obtain ⟨sv', reply⟩ := first
  simp only [Redis.lrange_list, FSRedis.getDataFromList, RedisObject.lrange_list, FSRedisData.getDataFromList,
    FSRedisData.fetch, hctx, hfirst]
  cases reply with
  | some reply => exact ⟨rfl, rfl⟩
  | none =>
    cases hpair : r.reConnect stable with
    | mk r' ok =>
      cases ok with
      | false => exact ⟨rfl, (List.append_nil _).symm⟩
      | true =>
        have hctx' : r'.db.m_pContext = some ctx' := by rw [← hctx', hpair]
        refine ⟨rfl, ?_⟩
        simp only [Bool.false_eq_true, if_false]
        rw [hctx']
        cases redisCommand format sv' ("LRANGE " ++ c_str key ++ " 0 -1") with
        | mk sv'' retry =>
          cases retry with
          | none => rfl
          | some retry => rfl

section Lost

variable (hlost : o.redis.db.m_pContext = none ∨ env.reply = none)

include hlost

theorem lrange_list_givenUp (hre : (o.redis.reConnect env.reConnect).2 = false) :
    ∃ redis sent, o.lrange_list key env = (⟨redis, o.data⟩, sent, []) ∧
      OnlySent (FSRedis.rangeCmd (c_str key)) sent ∧ received sent = none := by
  obtain ⟨sent, hfetch, honly, hsent⟩ := @fetch_lost o.data _ _ hlost (FSRedis.rangeCmd (c_str key))
  have hpair : o.redis.reConnect env.reConnect = ((o.redis.reConnect env.reConnect).1, false) := by rw [← hre]
  refine ⟨(o.redis.reConnect env.reConnect).1, sent, ?_, honly, hsent⟩
  rw [RedisObject.lrange_list, FSRedisData.getDataFromList, hfetch]
  simp only [Bool.false_eq_true, if_false]
  rw [hpair]

/-- After a reconnection what is there is appended, whatever the second attempt did. -/
theorem lrange_list_again (hre : (o.redis.reConnect env.reConnect).2 = true) :
    ∃ redis sent, redis.db.m_pContext.isSome = true ∧ OnlySent (FSRedis.rangeCmd (c_str key)) sent ∧
      received sent = none ∧ o.lrange_list key env =
      let (_, data, again) := o.data.fetch redis.db (FSRedis.rangeCmd (c_str key)) env.retry
      (⟨redis, data⟩, sent ++ again, data.strings) := by
  obtain ⟨sent, hfetch, honly, hsent⟩ := @fetch_lost o.data _ _ hlost (FSRedis.rangeCmd (c_str key))
  have hpair : o.redis.reConnect env.reConnect = ((o.redis.reConnect env.reConnect).1, true) := by rw [← hre]
  refine ⟨(o.redis.reConnect env.reConnect).1, sent, reConnect_open hre, honly, hsent, ?_⟩
  rw [RedisObject.lrange_list, FSRedisData.getDataFromList, hfetch]
  simp only [Bool.false_eq_true, if_false]
  rw [hpair]
  rfl

end Lost

/-- A read: what is received is kept, and appended unless both attempts are lost, in which
case what was kept before is. -/
theorem lrange_list_spec (o : RedisObject) (key : String) (env : ReplyEnv) :
    ∃ o' sent appended, o.lrange_list key env = (o', sent, appended) ∧ OnlySent (FSRedis.rangeCmd (c_str key)) sent ∧
      o'.data.m_pReply = (received sent).or o.data.m_pReply ∧
        (LostTwice o env → received sent = none ∧ appended = o.data.strings) ∧
          (¬ LostTwice o env → appended = FSRedisData.strings ⟨received sent⟩) := by
  rcases fetch_cases o.redis.db env.reply with ⟨hopen, r, hr⟩ | hlost
  · obtain ⟨sent, hcall, honly, hsent⟩ := @lrange_list_answered o key env r hopen hr
    refine ⟨_, sent, r.elements, hcall, honly, by rw [hsent]; rfl, fun h => ?_, fun _ => by rw [hsent]; rfl⟩
    rcases h.1 with hctx | hreply
    · rw [hctx] at hopen
      cases hopen
    · rw [hr] at hreply
      cases hreply
  · cases hre : (o.redis.reConnect env.reConnect).2 with
    | false =>
      obtain ⟨redis, sent, hcall, honly, hsent⟩ := @lrange_list_givenUp o key env hlost hre
      refine ⟨_, sent, [], hcall, honly, by rw [hsent]; rfl, fun h => ?_, fun _ => by rw [hsent]; rfl⟩
      exact absurd (hre.symm.trans h.2.1) Bool.false_ne_true
    | true =>
      obtain ⟨redis, sent, hopen, honly, hsent, hcall⟩ := @lrange_list_again o key env hlost hre
      cases hretry : env.retry with
      | none =>
        obtain ⟨again, hfetch, hsame, hagain⟩ := @fetch_lost o.data redis.db none (.inr rfl) (FSRedis.rangeCmd (c_str key))
        have hnone : received (sent ++ again) = none := (received_append_of_none hsent again).trans hagain
        rw [hretry, hfetch] at hcall
        refine ⟨_, _, _, hcall, honly.append hsame, by rw [hnone]; rfl, fun _ => ⟨hnone, rfl⟩, fun h => ?_⟩
        exact absurd ⟨hlost, hre, hretry⟩ h
      | some r =>
        rw [hretry, fetch_received hopen] at hcall
        have hsome : received (sent ++ [⟨FSRedis.rangeCmd (c_str key), some r⟩]) = some r := received_append_of_none hsent _
        refine ⟨_, _, _, hcall, honly.append (onlySent_one _ _), by rw [hsome]; rfl, fun h => ?_, fun _ => by rw [hsome]⟩
        exact absurd (hretry.symm.trans h.2.2) nofun

/-- A deletion keeps what its first attempt received. -/
theorem del_list_spec (o : RedisObject) (key : String) (env : ReplyEnv) :
    ∃ o' sent again, o.del_list key env = (o', sent, again) ∧ o'.data.m_pReply = (received sent).or o.data.m_pReply := by
  rcases fetch_cases o.redis.db env.reply with ⟨hopen, r, hr⟩ | hlost
  · have hfetch := @fetch_received o.data _ hopen (FSRedis.shiftCmd (c_str key)) r
    refine ⟨⟨o.redis, ⟨some r⟩⟩, [⟨FSRedis.shiftCmd (c_str key), some r⟩], [], ?_, rfl⟩
    rw [RedisObject.del_list, FSRedisData.shiftDataFromList, hr, hfetch]
    rfl
  · obtain ⟨sent, hfetch, -, hsent⟩ := @fetch_lost o.data _ _ hlost (FSRedis.shiftCmd (c_str key))
    cases hre : o.redis.reConnect env.reConnect with
    | mk redis ok =>
      refine ⟨⟨redis, o.data⟩, sent, if ok then (redis.db.delKey (c_str key) env.retry).2 else [], ?_, by rw [hsent]; rfl⟩
      rw [RedisObject.del_list, FSRedisData.shiftDataFromList, hfetch]
      simp only [Bool.false_eq_true, if_false]
      rw [hre]
      cases ok with
      | false => rfl
      | true => rfl

/-- One call: what it keeps, and when a read appends its own reply. -/
theorem step_spec (o : RedisObject) (op : Op) :
    ∃ e o', o.step op = ⟨[e], some o'⟩ ∧ o'.data.m_pReply = e.kept.or o.data.m_pReply ∧
      (OwnReply e ↔ ∀ key env, op = .lrange_list key env → LostTwice o env → o.data.strings = []) := by
  cases op with
  | rpush_list key pData env =>
    refine ⟨_, _, rfl, rfl, iff_of_true trivial fun key' env' heq => ?_⟩
    cases heq
  | del_list key env =>
    obtain ⟨o', sent, again, hcall, hkept⟩ := del_list_spec o key env
    refine ⟨.deleted sent again, o', ?_, hkept, iff_of_true trivial fun key' env' heq => ?_⟩
    · simp only [RedisObject.step, hcall]
    · cases heq
  | lrange_list key env =>
    obtain ⟨o', sent, appended, hcall, honly, hkept, hlost, hown⟩ := lrange_list_spec o key env
    refine ⟨.read key sent appended, o', ?_, hkept, ?_⟩
    · simp only [RedisObject.step, hcall]
    · by_cases htwice : LostTwice o env
      · obtain ⟨hnone, hsame⟩ := hlost htwice
        show (OnlySent _ sent ∧ appended = FSRedisData.strings ⟨received sent⟩) ↔ _
        rw [hnone, hsame, and_iff_right honly]
        constructor
        · intro h _ _ _ _
          exact h
        · intro h
          exact h key env rfl htwice
      · refine iff_of_true ⟨honly, hown htwice⟩ fun key' env' heq h => ?_
        cases heq
        exact absurd h htwice

/-- What is kept is the last reply that was left. -/
theorem kept_run (o : RedisObject) (ops : List Op) :
    ∃ o', (ops.foldlM RedisObject.step o).val = some o' ∧
      o'.data.m_pReply = (lastKept (ops.foldlM RedisObject.step o).log).or o.data.m_pReply := by
  induction ops generalizing o with
  | nil => exact ⟨o, rfl, rfl⟩
  | cons op ops ih =>
    obtain ⟨e, o₁, hstep, hkept, -⟩ := step_spec o op
    obtain ⟨o', hval, hlast⟩ := ih o₁
    have hrun : (op :: ops).foldlM RedisObject.step o =
        ⟨e :: (ops.foldlM RedisObject.step o₁).log, (ops.foldlM RedisObject.step o₁).val⟩ := by
      rw [List.foldlM_cons, hstep]
      rfl
    rw [hrun]
    refine ⟨o', hval, ?_⟩
    rw [hlast, hkept, lastKept, lastKept, List.filterMap_cons, ← Option.or_assoc]
    cases e.kept with
    | none => rw [Option.or_none]
    | some r =>
      rw [List.getLast?_cons]
      cases (List.filterMap Event.kept (ops.foldlM RedisObject.step o₁).log).getLast? with
      | none => rfl
      | some r' => rfl

/-- The reads of a history append what they receive, if and only if no read loses both its
attempts, with a successful reconnection between them, after a reply with elements was the
last that an earlier read or deletion received. -/
theorem reads_ownReply_iff (redis : Redis) (ops : List Op) :
    (∀ e ∈ (ops.foldlM RedisObject.step (.new redis)).log, OwnReply e) ↔
      ∀ pre key env post o, ops = pre ++ .lrange_list key env :: post →
        (pre.foldlM RedisObject.step (.new redis)).val = some o → LostTwice o env →
          FSRedisData.strings ⟨lastKept (pre.foldlM RedisObject.step (.new redis)).log⟩ = [] := by
  have hkept : ∀ (pre : List Op) (o : RedisObject), (pre.foldlM RedisObject.step (.new redis)).val = some o →
      o.data = ⟨lastKept (pre.foldlM RedisObject.step (.new redis)).log⟩ := by
    intro pre o hval
    obtain ⟨o', hval', hlast⟩ := kept_run (.new redis) pre
    cases Option.some.inj (hval.symm.trans hval')
    exact congrArg FSRedisData.mk (hlast.trans (Option.or_none))
  rw [Traced.forall_mem_log_foldlM_iff]
  constructor
  · intro h pre key env post o hops hval hlost
    obtain ⟨e, o', hstep, -, hown⟩ := step_spec o (.lrange_list key env)
    have hread := h pre (.lrange_list key env) post hops o hval e (by rw [hstep]; exact List.mem_singleton_self e)
    rw [← hkept pre o hval]
    exact hown.mp hread key env rfl hlost
  · intro h pre op post hops o hval e he
    obtain ⟨e', o', hstep, -, hown⟩ := step_spec o op
    rw [hstep] at he
    obtain rfl := List.mem_singleton.mp he
    apply hown.mpr
    intro key env heq hlost
    rw [hkept pre o hval]
    subst heq
    exact h pre key env post o hops hval hlost

/-- An object whose connection was made. -/
def connected : Redis := ((Redis.Init "127.0.0.1" "" 47393 2 5).connect stable).1

/-- A read of one list, and a read of another that loses both its attempts. -/
def staleReads : List Op :=
  [.lrange_list "alarm" ⟨some (.ARRAY ["1".toList]), stable, none⟩, .lrange_list "task" ⟨none, stable, none⟩]

/-- What the first read received is appended by the second. -/
theorem not_ownReply_stale : ¬ ∀ e ∈ (staleReads.foldlM RedisObject.step (.new connected)).log, OwnReply e := by
  intro h
  have hstale : Event.read "task" [⟨FSRedis.rangeCmd "task", none⟩, ⟨FSRedis.rangeCmd "task", none⟩] ["1".toList] ∈
      (staleReads.foldlM RedisObject.step (.new connected)).log := List.mem_cons_of_mem _ List.mem_cons_self
  exact absurd (h _ hstale).2 (List.cons_ne_nil _ _)

end Perception.RedisDb
