import Perception.RedisDb.ReplyKept

/-!
# A deletion that is tried again

The first attempt of a deletion gives the key as an argument of the format, which the client
library puts into one word. The second attempt gives the whole command in that way.
-/
namespace Perception.RedisDb

set_option autoImplicit false

open Perception.Lib
open Perception.Db (c_str)

/-- What the client library makes of a format with arguments, if it is a command. -/
abbrev Formatter := List Char → List (List Char) → Option (List (List Char))

/-- The words of the format, where an argument is one word. -/
def substitute : Formatter := fun format args => expand (strtok ' ' format) args

/-- What is known of the client library: an argument for `%s` is inserted as one word. -/
def Substitutes (formatter : Formatter) : Prop :=
  ∀ format args argv, substitute format args = some argv → formatter format args = some argv

namespace Server

/-- The first element of a list is taken away. -/
def lpop (sv : Server) : List (List Char) → Server × Reply
  | [key] =>
    match sv key with
    | [] => (sv, .NIL)
    | value :: values => (Function.update sv key values, .STRING value)
  | _ => (sv, .ERROR)

/-- One command, `LPOP` among them. -/
def execute (sv : Server) : List (List Char) → Server × Reply
  | [] => (sv, .ERROR)
  | name :: args => if name = "LPOP".toList then sv.lpop args else sv.exec (name :: args)

end Server

/-- A command that reaches the server; a format that is none does not. -/
def redisvCommand (formatter : Formatter) (sv : Server) (cmd : Command) : Server × Option Reply :=
  match formatter cmd.format.toList (cmd.args.map String.toList) with
  | none => (sv, none)
  | some argv => ((sv.execute argv).1, some (sv.execute argv).2)

/-- A call of `RedisDelData`, and whether the connection drops before its first and its second
command reach the server. -/
structure DelCall where
  strKey : String
  connect : ConnectEnv
  dropped : Bool
  reConnect : ConnectEnv
  droppedAgain : Bool

def attempt (formatter : Formatter) (dropped : Bool) (sv : Server) (cmd : Command) : Server × Option Reply :=
  if dropped then (sv, none) else redisvCommand formatter sv cmd

/-- The replies that the two attempts of a call get. -/
def delEnv (formatter : Formatter) (sv : Server) (c : DelCall) : ReplyEnv :=
  let first := attempt formatter c.dropped sv (FSRedis.shiftCmd (c_str c.strKey))
  let second := attempt formatter c.droppedAgain first.1 (FSRedis.delCmd (c_str c.strKey))
  ⟨first.2, c.reConnect, second.2⟩

/-- The server does the commands that it answered. -/
def serve (formatter : Formatter) (sv : Server) (a : Sent) : Server :=
  if a.reply.isSome then (redisvCommand formatter sv a.cmd).1 else sv

/-- The pool and the server after a call, where `data` is what the object kept. -/
def RedisDelData (formatter : Formatter) (data : FSRedisData) (s : World × Server) (c : DelCall) : Option (World × Server) :=
  match s.1.Get true c.connect with
  | (w₁, none, _) => some (w₁, s.2)
  | (w₁, some pRedis, bLongConn) => do
    let r ← w₁.deref pRedis
    let (o, sent, again) := RedisObject.del_list ⟨r, data⟩ c.strKey (delEnv formatter s.2 c)
    let w₂ ← World.Put { w₁ with heap := w₁.heap.set pRedis (some o.redis) } (some pRedis) bLongConn
    pure (w₂, (sent ++ again).foldl (serve formatter) s.2)

section Commands

variable {formatter : Formatter} (hformat : Substitutes formatter) (sv : Server) (key : String)

include hformat

theorem redisvCommand_shift : redisvCommand formatter sv (FSRedis.shiftCmd key) =
    ((sv.lpop [key.toList]).1, some (sv.lpop [key.toList]).2) := by
  have hargv : formatter "LPOP %s".toList [key.toList] = some ["LPOP".toList, key.toList] := by
    apply hformat _ _ _
    have hwords : strtok ' ' "LPOP %s".toList = ["LPOP".toList, ['%', 's']] := by decide
    have hname : "LPOP".toList ≠ ['%', 's'] := by decide
    have hplain : '%' ∉ "LPOP".toList := by decide
    rw [substitute, hwords, expand, if_neg hname, if_neg hplain, expand, if_pos rfl]
    rfl
  rw [redisvCommand, FSRedis.shiftCmd, List.map_cons, List.map_nil, hargv]
  simp only [Server.execute, if_true]

/-- A command that is one word is none that the server has. -/
theorem redisvCommand_del : redisvCommand formatter sv (FSRedis.delCmd key) = (sv, some .ERROR) := by
  have hargv : formatter "%s".toList [("LPOP " ++ key).toList] = some [("LPOP " ++ key).toList] := by
    apply hformat _ _ _
    have hwords : strtok ' ' "%s".toList = [['%', 's']] := by decide
    rw [substitute, hwords, expand, if_pos rfl]
    rfl
  have hchars : ("LPOP " ++ key).toList = 'L' :: 'P' :: 'O' :: 'P' :: ' ' :: key.toList := by
    rw [String.toList_append]
    rfl
  have hpop : 'L' :: 'P' :: 'O' :: 'P' :: ' ' :: key.toList ≠ "LPOP".toList := by
    intro h
    exact absurd (congrArg List.length h) (by simp)
  have hpush : 'L' :: 'P' :: 'O' :: 'P' :: ' ' :: key.toList ≠ "RPUSH".toList := by
    intro h
    exact absurd (List.cons.inj h).1 (by decide)
  have hrange : 'L' :: 'P' :: 'O' :: 'P' :: ' ' :: key.toList ≠ "LRANGE".toList := by
    intro h
    exact absurd (List.cons.inj (List.cons.inj h).2).1 (by decide)
  have hword : sv.execute ['L' :: 'P' :: 'O' :: 'P' :: ' ' :: key.toList] = (sv, .ERROR) := by
    rw [Server.execute, if_neg hpop, Server.exec, if_neg hpush, if_neg hrange]
  rw [redisvCommand, FSRedis.delCmd, List.map_cons, List.map_nil, hargv, hchars]
  dsimp only
  rw [hword]

end Commands

/-- Taking the first element away leaves the lists as they are only where there is none. -/
theorem lpop_eq_self_iff (sv : Server) (key : List Char) : (sv.lpop [key]).1 = sv ↔ sv key = [] := by
  cases hlist : sv key with
  | nil =>
    have hpop : sv.lpop [key] = (sv, .NIL) := by simp only [Server.lpop, hlist]
    rw [hpop]
    exact iff_of_true rfl rfl
  | cons value values =>
    have hpop : (sv.lpop [key]).1 = Function.update sv key values := by simp only [Server.lpop, hlist]
    refine iff_of_false (fun h => ?_) (List.cons_ne_nil _ _)
    rw [hpop] at h
    have hsame := congrFun h key
    rw [Function.update_self, hlist] at hsame
    exact absurd hsame.symm (List.cons_ne_self _ _)

theorem delKey_sent (db : FSRedis) (key : String) (reply : Option Reply) :
    (db.delKey key reply).2 = db.send (FSRedis.delCmd key) reply := by
  unfold FSRedis.delKey
  split
  · rfl
  · rfl

theorem send_open {db : FSRedis} (hopen : db.m_pContext.isSome = true) (cmd : Command) (reply : Option Reply) :
    db.send cmd reply = [⟨cmd, reply⟩] := by
  obtain ⟨ctx, hctx⟩ := Option.isSome_iff_exists.mp hopen
  rw [FSRedis.send, hctx]

/-- A first attempt that is answered is the only one. -/
theorem del_list_answered {o : RedisObject} {env : ReplyEnv} {r : Reply} (hopen : o.redis.db.m_pContext.isSome = true)
    (hr : env.reply = some r) (key : String) :
    o.del_list key env = (⟨o.redis, ⟨some r⟩⟩, [⟨FSRedis.shiftCmd (c_str key), some r⟩], []) := by
  rw [RedisObject.del_list, FSRedisData.shiftDataFromList, hr, fetch_received hopen]
  rfl

/-- A first attempt that is lost is followed by the other command. -/
theorem del_list_lost {o : RedisObject} {env : ReplyEnv} (hopen : o.redis.db.m_pContext.isSome = true)
    (hr : env.reply = none) (hre : (o.redis.reConnect env.reConnect).2 = true) (key : String) :
    o.del_list key env = (⟨(o.redis.reConnect env.reConnect).1, o.data⟩, [⟨FSRedis.shiftCmd (c_str key), none⟩],
      [⟨FSRedis.delCmd (c_str key), env.retry⟩]) := by
  have hfetch : o.data.fetch o.redis.db (FSRedis.shiftCmd (c_str key)) none =
      (false, o.data, [⟨FSRedis.shiftCmd (c_str key), none⟩]) := by
    obtain ⟨ctx, hctx⟩ := Option.isSome_iff_exists.mp hopen
    simp only [FSRedisData.fetch, FSRedis.send, hctx]
  have hpair : o.redis.reConnect env.reConnect = ((o.redis.reConnect env.reConnect).1, true) := by rw [← hre]
  rw [RedisObject.del_list, FSRedisData.shiftDataFromList, hr, hfetch]
  simp only [Bool.false_eq_true, if_false]
  rw [hpair]
  simp only [delKey_sent, send_open (reConnect_open hre)]

/-- The object is given, worked with and put back. -/
theorem RedisDelData_server (formatter : Formatter) (data : FSRedisData) {w w₁ : World} {sv : Server} {c : DelCall} {p : Addr}
    {r : Redis} {b : Bool} {o : RedisObject} {sent again : List Sent} (hget : w.Get true c.connect = (w₁, some p, b))
    (hderef : w₁.deref p = some r)
    (hcall : RedisObject.del_list ⟨r, data⟩ c.strKey (delEnv formatter sv c) = (o, sent, again)) :
    (RedisDelData formatter data (w, sv) c).map Prod.snd = some ((sent ++ again).foldl (serve formatter) sv) := by
  have hset : World.deref { w₁ with heap := w₁.heap.set p (some o.redis) } p = some o.redis := by
    unfold World.deref
    rw [List.getElem?_set_self (World.lt_of_deref hderef)]
    rfl
  unfold RedisDelData
  simp only [hget, hderef, hcall, World.Put, hset, Option.map_some, Option.bind_eq_bind, Option.bind_some]
  rfl

section Effect

variable {formatter : Formatter} (hformat : Substitutes formatter) (data : FSRedisData) {w w₁ : World} (sv : Server)
  {c : DelCall} {p : Addr} {r : Redis} {b : Bool} (hget : w.Get true c.connect = (w₁, some p, b))
  (hderef : w₁.deref p = some r) (hopen : r.db.m_pContext.isSome = true)

include hformat hget hderef hopen

/-- A first attempt that reaches the server takes the first element away. -/
theorem RedisDelData_first (hdropped : c.dropped = false) :
    (RedisDelData formatter data (w, sv) c).map Prod.snd = some (sv.lpop [(c_str c.strKey).toList]).1 := by
  have hcommand := redisvCommand_shift hformat sv (c_str c.strKey)
  have hfirst : (delEnv formatter sv c).reply = some (sv.lpop [(c_str c.strKey).toList]).2 := by
    simp only [delEnv, attempt, hdropped, Bool.false_eq_true, if_false, hcommand]
  have hcall := @del_list_answered ⟨r, data⟩ _ _ hopen hfirst c.strKey
  rw [RedisDelData_server formatter data hget hderef hcall]
  simp only [List.append_nil, List.foldl_cons, List.foldl_nil, serve, Option.isSome_some, if_true, hcommand]

/-- A first attempt that is dropped leaves the second, which changes nothing. -/
theorem RedisDelData_retried (hdropped : c.dropped = true) (hre : (r.reConnect c.reConnect).2 = true) :
    (RedisDelData formatter data (w, sv) c).map Prod.snd = some sv := by
  have hcommand := redisvCommand_del hformat sv (c_str c.strKey)
  have hfirst : (delEnv formatter sv c).reply = none := by simp only [delEnv, attempt, hdropped, if_true]
  have hcall := @del_list_lost ⟨r, data⟩ _ hopen hfirst hre c.strKey
  rw [RedisDelData_server formatter data hget hderef hcall]
  simp only [List.cons_append, List.nil_append, List.foldl_cons, List.foldl_nil, serve, Option.isSome_none,
    Bool.false_eq_true, if_false, hcommand, ite_self]

end Effect

theorem substitutes_substitute : Substitutes substitute := fun _ _ _ => id

/-- A call that connects whenever it has to, and drops its first command or not. -/
def alarmCall (dropped : Bool) : DelCall := ⟨"alarm", stable, dropped, stable, false⟩

/-- A deletion whose first command is dropped does what it does otherwise if and only if there
is nothing to delete, whether the second command gets through or not. -/
theorem RedisDelData_retry_iff {formatter : Formatter} (hformat : Substitutes formatter) (data : FSRedisData) {w w₁ : World}
    (sv : Server) {c : DelCall} {p : Addr} {r : Redis} {b : Bool} (hget : w.Get true c.connect = (w₁, some p, b))
    (hderef : w₁.deref p = some r) (hopen : r.db.m_pContext.isSome = true) (hre : (r.reConnect c.reConnect).2 = true) :
    (RedisDelData formatter data (w, sv) { c with dropped := true }).map Prod.snd =
        (RedisDelData formatter data (w, sv) { c with dropped := false }).map Prod.snd ↔
      sv (c_str c.strKey).toList = [] := by
  rw [@RedisDelData_retried _ hformat data w w₁ sv { c with dropped := true } p r b hget hderef hopen rfl hre,
    @RedisDelData_first _ hformat data w w₁ sv { c with dropped := false } p r b hget hderef hopen rfl,
    ← lpop_eq_self_iff, Option.some_inj]
  exact eq_comm

/-- There is nothing to delete. -/
theorem RedisDelData_retry_absent :
    (RedisDelData substitute .new (World.Init localArgs, fun _ => []) (alarmCall true)).map Prod.snd =
      (RedisDelData substitute .new (World.Init localArgs, fun _ => []) (alarmCall false)).map Prod.snd :=
  (@RedisDelData_retry_iff _ substitutes_substitute .new (World.Init localArgs) _ (fun _ => []) (alarmCall true) 0 _ true
    rfl rfl rfl rfl).mpr rfl

/-- The element that the first command would have taken away is still there after the second. -/
theorem not_retry_transparent :
    (RedisDelData substitute .new (World.Init localArgs, fun _ => ["1".toList]) (alarmCall true)).map Prod.snd ≠
      (RedisDelData substitute .new (World.Init localArgs, fun _ => ["1".toList]) (alarmCall false)).map Prod.snd := by
  rw [@RedisDelData_retried _ substitutes_substitute .new (World.Init localArgs) _ _ (alarmCall true) 0 _ true rfl rfl rfl rfl
    rfl, @RedisDelData_first _ substitutes_substitute .new (World.Init localArgs) _ _ (alarmCall false) 0 _ true rfl rfl rfl rfl]
  intro h
  have hnil := (lpop_eq_self_iff _ _).mp (Option.some.inj h).symm
  exact absurd hnil (List.cons_ne_nil _ _)

end Perception.RedisDb
