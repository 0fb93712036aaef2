import Perception.Db.SqliteDbSvr

/-!
# A connection to the redis server

What the client library and the server do is given with each call: whether the library
gets a context, and the reply to each command, where no reply is a lost connection.
-/
namespace Perception.RedisDb

set_option autoImplicit false

open Perception.Db (c_str)

/-- The `REDIS_REPLY_` types. -/
inductive ReplyType
  | STRING | ARRAY | INTEGER | NIL | STATUS | ERROR
deriving DecidableEq

structure FSRedisConfig where
  db_index : Int
  host : String
  pwd : String
  port : Int
  connect_timeout : Int
  rw_timeout : Int

/-- What happens to one `connect`. -/
structure ConnectEnv where
  /-- `redisConnectWithTimeout` gives a context, and that without an error. -/
  context : Bool
  /-- `redisSetTimeout` is `REDIS_OK`. -/
  setTimeout : Bool
  /-- The reply to `AUTH`. -/
  auth : Option ReplyType

/-- The server that a context is open to. -/
structure RedisContext where
  host : String
  port : Int

structure FSRedis where
  m_pContext : Option RedisContext

namespace FSRedis

def new : FSRedis := ⟨none⟩

/-- A context stays open also when the timeout or the password is refused. -/
def connect (config : FSRedisConfig) (env : ConnectEnv) : FSRedis × Bool :=
  if !env.context then (⟨none⟩, false)
  else
    let db : FSRedis := ⟨some ⟨c_str config.host, config.port⟩⟩
    if !env.setTimeout then (db, false)
    else if config.pwd.isEmpty then (db, true)
    else
      match env.auth with
      | none => (db, false)
      | some .ERROR => (db, false)
      | some _ => (db, true)

def close (_ : FSRedis) : FSRedis := ⟨none⟩

end FSRedis

/-- A command that was sent, with its reply. -/
structure Answer where
  strCmd : String
  reply : Option ReplyType

/-- Push a text to a list. Without a context `_CHECK_CONNECT` returns `false`, which is 0
as a number. -/
def FSRedis.pushStringToList (db : FSRedis) (list_name value : String) (reply : Option ReplyType) :
    Int × List Answer :=
  match db.m_pContext with
  | none => (0, [])
  | some _ =>
    let strCmd := "RPUSH " ++ list_name ++ " " ++ value
    match reply with
    | some .INTEGER => (0, [⟨strCmd, reply⟩])
    | _ => (-1, [⟨strCmd, reply⟩])

/-- A client object; `m_pool_index` is its place in the pool. -/
structure Redis where
  conf : FSRedisConfig
  db : FSRedis
  m_pool_index : Nat

/-- What happens to one `rpush_list`: the replies to its two attempts, and to the
reconnection between them. -/
structure PushEnv where
  reply : Option ReplyType
  reConnect : ConnectEnv
  retry : Option ReplyType

namespace Redis

def Init (strRdIp strRdPwd : String) (s32RdPort s32RdConnTimeout s32RdRWTimeout : Int) : Redis :=
  ⟨⟨0, strRdIp, strRdPwd, s32RdPort, s32RdConnTimeout, s32RdRWTimeout⟩, .new, 0⟩

def connect (r : Redis) (env : ConnectEnv) : Redis × Bool :=
  let (db, ok) := FSRedis.connect r.conf env
  ({ r with db := db }, ok)

def close (r : Redis) : Redis := { r with db := r.db.close }

def reConnect (r : Redis) (env : ConnectEnv) : Redis × Bool := r.close.connect env

def setPoolIndex (r : Redis) (index : Nat) : Redis := { r with m_pool_index := index }

def rpush_list (r : Redis) (key pData : String) (env : PushEnv) : Redis × Int × List Answer :=
  let (s32Ret, log) := r.db.pushStringToList (c_str key) pData env.reply
  if 0 ≤ s32Ret then (r, s32Ret, log)
  else
    match r.reConnect env.reConnect with
    | (r', true) =>
      let (s32Ret', log') := r'.db.pushStringToList (c_str key) pData env.retry
      (r', s32Ret', log ++ log')
    | (r', false) => (r', s32Ret, log)

end Redis

end Perception.RedisDb
