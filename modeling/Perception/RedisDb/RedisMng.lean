import Mathlib.Data.List.ReduceOption
import Perception.RedisDb.FSRedis

/-!
# The pool of redis connections

The connections are objects on a heap, and a `Redis*` is the address of one. The pool has
an array of these pointers and one of flags that say which are free; it hands out a free
one, or else a new one, which stays in the pool as long as there is room.
-/
namespace Perception.RedisDb

set_option autoImplicit false

open Perception.Db (c_str)

def s32MaxDefaultConnections : Int := 20
def nDefaultRedisPort : Int := 47393
def strDefaultRedisIp : String := "127.0.0.1"
def strDefaultRedisPwd : String := ""
def s32RedisDefaultConnTimeOut : Int := 2
def s32RedisDefaultRWTimeout : Int := 5

abbrev Addr := Nat

structure RedisMng where
  m_maxConnections : Int
  m_currentConnections : Nat
  m_strRedisIp : String
  m_strRedisPwd : String
  m_s32RedisPort : Int
  m_s32RedisConnectTimeout : Int
  m_s32RedisRWTimeout : Int
  m_connections : List (Option Addr)
  m_is_free : List Bool

/-- The arguments of `RedisMng::Init`. -/
structure InitArgs where
  strRdIp : String
  strRdPwd : String
  s32RdPort : Int
  s32RdConnTimeout : Int
  s32RdRWTimeout : Int
  maxConnections : Int
  initConnections : Int

/-- At least as many connections as are to be there first, and a default for none. -/
def maxOf (maxConnections initConnections : Int) : Int :=
  let maxConnections := if initConnections > maxConnections then initConnections else maxConnections
  if 0 < maxConnections then maxConnections else s32MaxDefaultConnections

def RedisMng.Init (a : InitArgs) : RedisMng where
  m_maxConnections := maxOf a.maxConnections a.initConnections
  m_currentConnections := 0
  m_strRedisIp := if a.strRdIp.isEmpty then strDefaultRedisIp else a.strRdIp
  m_strRedisPwd := if a.strRdPwd.isEmpty then strDefaultRedisPwd else a.strRdPwd
  m_s32RedisPort := if 0 ≥ a.s32RdPort then nDefaultRedisPort else a.s32RdPort
  m_s32RedisConnectTimeout := if 0 ≥ a.s32RdConnTimeout then s32RedisDefaultConnTimeOut else a.s32RdConnTimeout
  m_s32RedisRWTimeout := if 0 ≥ a.s32RdRWTimeout then s32RedisDefaultRWTimeout else a.s32RdRWTimeout
  m_connections := List.replicate (maxOf a.maxConnections a.initConnections).toNat none
  m_is_free := List.replicate (maxOf a.maxConnections a.initConnections).toNat true

/-- The pool with the heap. A deleted object leaves a hole; addresses are not used again. -/
structure World where
  mng : RedisMng
  heap : List (Option Redis)

namespace World

/-- The pool after `Init`, before any connection. -/
def Init (a : InitArgs) : World := ⟨.Init a, []⟩

def deref (w : World) (p : Addr) : Option Redis := w.heap[p]?.join

/-- A new object with the settings of the pool. -/
def newRedis (w : World) : Redis :=
  .Init w.mng.m_strRedisIp w.mng.m_strRedisPwd w.mng.m_s32RedisPort w.mng.m_s32RedisConnectTimeout
    w.mng.m_s32RedisRWTimeout

/-- Put a new connection into the pool, which keeps its flag at free. -/
def store (w : World) (r : Redis) : World where
  mng := { w.mng with
    m_connections := w.mng.m_connections.set w.mng.m_currentConnections (some w.heap.length)
    m_is_free := w.mng.m_is_free.set w.mng.m_currentConnections true
    m_currentConnections := w.mng.m_currentConnections + 1 }
  heap := w.heap ++ [some (r.setPoolIndex w.mng.m_currentConnections)]

/-- The connection, if the server can be reached, and whether it belongs to the pool. -/
def newConnection (w : World) (bLongConn : Bool) (env : ConnectEnv) : World × Option Addr × Bool :=
  match w.newRedis.connect env with
  | (_, false) => ({ w with heap := w.heap ++ [none] }, none, bLongConn)
  | (r, true) =>
    if (w.mng.m_currentConnections : Int) ≥ w.mng.m_maxConnections then
      ({ w with heap := w.heap ++ [some r] }, some w.heap.length, false)
    else (w.store r, some w.heap.length, true)

/-- The flags that the loop of `Get` looks at. -/
def flags (w : World) : List Bool := w.mng.m_is_free.take w.mng.m_currentConnections

def setFree (w : World) (i : Nat) (b : Bool) : World :=
  { w with mng := { w.mng with m_is_free := w.mng.m_is_free.set i b } }

def Get (w : World) (bLongConn : Bool) (env : ConnectEnv) : World × Option Addr × Bool :=
  match w.flags.findIdx? id with
  | some i => (w.setFree i false, w.mng.m_connections[i]?.join, true)
  | none => w.newConnection bLongConn env

/-- Give a connection back, or delete it if it does not belong to the pool. There is no
meaning for an object that was deleted before. -/
def Put (w : World) (redis : Option Addr) (bLongConn : Bool) : Option World :=
  match redis with
  | none => some w
  | some p => (w.deref p).map fun r =>
    if bLongConn then w.setFree r.m_pool_index true else { w with heap := w.heap.set p none }

/-- The connections in the pool. -/
def pooled (w : World) : List Addr := (w.mng.m_connections.take w.mng.m_currentConnections).reduceOption

variable {w : World} {bLongConn : Bool} {env : ConnectEnv}

theorem deref_eq_some {p : Addr} {r : Redis} : w.deref p = some r ↔ w.heap[p]? = some (some r) :=
  Option.join_eq_some_iff

theorem lt_of_deref {p : Addr} {r : Redis} (h : w.deref p = some r) : p < w.heap.length :=
  (List.getElem?_eq_some_iff.mp (deref_eq_some.mp h)).1

theorem flags_setFree (i : Nat) (b : Bool) : (w.setFree i b).flags = w.flags.set i b := List.take_set

theorem Get_of_free (bLongConn : Bool) (env : ConnectEnv) {i : Nat} (h : w.flags.findIdx? id = some i) :
    w.Get bLongConn env = (w.setFree i false, w.mng.m_connections[i]?.join, true) := by
  unfold Get
  rw [h]

theorem Get_of_none (bLongConn : Bool) (env : ConnectEnv) (h : w.flags.findIdx? id = none) :
    w.Get bLongConn env = w.newConnection bLongConn env := by
  unfold Get
  rw [h]

theorem newConnection_refused (h : (w.newRedis.connect env).2 = false) :
    w.newConnection bLongConn env = ({ w with heap := w.heap ++ [none] }, none, bLongConn) := by
  unfold newConnection
  have hpair : w.newRedis.connect env = ((w.newRedis.connect env).1, false) := by rw [← h]
  rw [hpair]

/-- Without room the connection does not get into the pool. -/
theorem newConnection_short (h : (w.newRedis.connect env).2 = true)
    (hfull : (w.mng.m_currentConnections : Int) ≥ w.mng.m_maxConnections) :
    w.newConnection bLongConn env =
      ({ w with heap := w.heap ++ [some (w.newRedis.connect env).1] }, some w.heap.length, false) := by
  unfold newConnection
  have hpair : w.newRedis.connect env = ((w.newRedis.connect env).1, true) := by rw [← h]
  rw [hpair]
  exact if_pos hfull

theorem newConnection_long (h : (w.newRedis.connect env).2 = true)
    (hroom : ¬ (w.mng.m_currentConnections : Int) ≥ w.mng.m_maxConnections) :
    w.newConnection bLongConn env = (w.store (w.newRedis.connect env).1, some w.heap.length, true) := by
  unfold newConnection
  have hpair : w.newRedis.connect env = ((w.newRedis.connect env).1, true) := by rw [← h]
  rw [hpair]
  exact if_neg hroom

end World

theorem maxOf_pos (maxConnections initConnections : Int) : 0 < maxOf maxConnections initConnections := by
  unfold maxOf
  dsimp only
  generalize (if initConnections > maxConnections then initConnections else maxConnections) = n
  by_cases hn : 0 < n
  · rw [if_pos hn]
    exact hn
  · rw [if_neg hn]
    decide

/-- A call of `RedisSaveData`, and what happens to it. -/
structure SaveCall where
  strKey : String
  strData : String
  connect : ConnectEnv
  push : PushEnv

/-- Whether the text was saved, and the commands that were answered. -/
def RedisSaveData (w : World) (c : SaveCall) : Option (World × Bool × List Answer) :=
  match w.Get true c.connect with
  | (w₁, none, _) => some (w₁, false, [])
  | (w₁, some pRedis, bLongConn) => do
    let r ← w₁.deref pRedis
    let (r', s32Ret, log) := r.rpush_list c.strKey (c_str c.strData) c.push
    let w₂ ← World.Put { w₁ with heap := w₁.heap.set pRedis (some r') } (some pRedis) bLongConn
    pure (w₂, s32Ret == 0, log)

end Perception.RedisDb
