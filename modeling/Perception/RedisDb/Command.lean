import Mathlib.Logic.Function.Basic
import Perception.Lib.Directive
import Perception.Lib.Strtok
import Perception.RedisDb.RedisMng

/-!
# Commands and the server

A command is written into one text, which the client library takes for a format: it is cut
at the spaces, and its directives ask for arguments that are not there. The server keeps
lists; one that is not there is empty.
-/
namespace Perception.RedisDb

set_option autoImplicit false

open Perception.Lib
open Perception.Db (c_str)

/-- What the client library makes of a format without arguments, if it is a command. -/
abbrev Format := List Char → Option (List (List Char))

/-- A format that asks for nothing is cut at the spaces. -/
def interpret (format : List Char) : Option (List (List Char)) := (plain format).map (strtok ' ')

/-- What is known of the client library: formats that ask for nothing. -/
def Documented (format : Format) : Prop := ∀ s argv, interpret s = some argv → format s = some argv

inductive Reply
  | INTEGER (n : Nat)
  | ARRAY (elements : List (List Char))
  | ERROR
  | STRING (str : List Char)
  | NIL
  | STATUS (str : List Char)
  deriving DecidableEq

def Reply.type : Reply → ReplyType
  | .INTEGER _ => .INTEGER
  | .ARRAY _ => .ARRAY
  | .ERROR => .ERROR
  | .STRING _ => .STRING
  | .NIL => .NIL
  | .STATUS _ => .STATUS

def Reply.elements : Reply → List (List Char)
  | .ARRAY xs => xs
  | _ => []

/-- The lists by their keys. -/
abbrev Server := List Char → List (List Char)

/-- An index, which may count from the end. -/
def indexArg : List Char → Option Int
  | [] => none
  | '-' :: ds => if ds ≠ [] ∧ ds.all Char.isDigit then some (-(Nat.ofDigitChars 10 ds 0 : Int)) else none
  | ds => if ds.all Char.isDigit then some (Nat.ofDigitChars 10 ds 0) else none

def lrange (xs : List (List Char)) (start stop : Int) : List (List Char) :=
  let start := if start < 0 then max 0 (xs.length + start) else start
  let stop := if stop < 0 then xs.length + stop else stop
  (xs.drop start.toNat).take (stop - start + 1).toNat

namespace Server

def rpush (sv : Server) : List (List Char) → Server × Reply
  | key :: value :: values =>
    (Function.update sv key (sv key ++ value :: values), .INTEGER (sv key ++ value :: values).length)
  | _ => (sv, .ERROR)

def lrangeReply (sv : Server) : List (List Char) → Reply
  | [key, start, stop] =>
    match indexArg start, indexArg stop with
    | some start, some stop => .ARRAY (lrange (sv key) start stop)
    | _, _ => .ERROR
  | _ => .ERROR

/-- One command; all others are errors. -/
def exec (sv : Server) : List (List Char) → Server × Reply
  | [] => (sv, .ERROR)
  | name :: args =>
    if name = "RPUSH".toList then sv.rpush args
    else if name = "LRANGE".toList then (sv, sv.lrangeReply args)
    else (sv, .ERROR)

end Server

/-- A command on an open connection; a format that is none gets no reply. -/
def redisCommand (format : Format) (sv : Server) (strCmd : String) : Server × Option Reply :=
  match format strCmd.toList with
  | none => (sv, none)
  | some argv => ((sv.exec argv).1, some (sv.exec argv).2)

/-- Every connection is made. -/
def stable : ConnectEnv := ⟨true, true, some .STATUS⟩

/-- A call of `RedisSaveData`, answered by the server. -/
def saveCall (format : Format) (sv : Server) (strKey strData : String) : SaveCall :=
  let strCmd := "RPUSH " ++ c_str strKey ++ " " ++ c_str strData
  let first := redisCommand format sv strCmd
  let second := redisCommand format first.1 strCmd
  ⟨strKey, strData, stable, ⟨first.2.map Reply.type, stable, second.2.map Reply.type⟩⟩

/-- The pool and the server after it, which has done the commands that were sent. -/
def save (format : Format) (strKey : String) (s : World × Server) (strData : String) : Option (World × Server) :=
  (RedisSaveData s.1 (saveCall format s.2 strKey strData)).map fun r =>
    (r.1, r.2.2.foldl (fun sv a => (redisCommand format sv a.strCmd).1) s.2)

/-- All of a list. The reply is kept in `outdata`. -/
def FSRedis.getDataFromList (format : Format) (db : FSRedis) (sv : Server) (list_name : String) (outdata : Option Reply) :
    Server × Bool × Option Reply :=
  match db.m_pContext with
  | none => (sv, false, outdata)
  | some _ =>
    match redisCommand format sv ("LRANGE " ++ list_name ++ " 0 -1") with
    | (sv, none) => (sv, false, outdata)
    | (sv, some reply) => (sv, true, some reply)

/-- The strings of a reply, if there is one. -/
def appendReply (data : Option Reply) (datalist : List (List Char)) : List (List Char) :=
  datalist ++ (data.map Reply.elements).getD []

/-- The second attempt is not looked at. -/
def Redis.lrange_list (format : Format) (r : Redis) (sv : Server) (key : String) (data : Option Reply)
    (datalist : List (List Char)) : Redis × Server × List (List Char) :=
  match r.db.getDataFromList format sv (c_str key) data with
  | (sv, true, data) => (r, sv, appendReply data datalist)
  | (sv, false, data) =>
    match r.reConnect stable with
    | (r, true) =>
      let (sv, _, data) := r.db.getDataFromList format sv (c_str key) data
      (r, sv, appendReply data datalist)
    | (r, false) => (r, sv, datalist)

/-- The object that is given has not read anything before. -/
def RedisReadData (format : Format) (s : World × Server) (strKey : String) (vecData : List (List Char)) :
    Option ((World × Server) × List (List Char)) :=
  match s.1.Get true stable with
  | (w₁, none, _) => some ((w₁, s.2), vecData)
  | (w₁, some pRedis, bLongConn) => do
    let r ← w₁.deref pRedis
    let (r', sv, vecData) := r.lrange_list format s.2 strKey none vecData
    let w₂ ← World.Put { w₁ with heap := w₁.heap.set pRedis (some r') } (some pRedis) bLongConn
    pure ((w₂, sv), vecData)

theorem lrange_all (xs : List (List Char)) : lrange xs 0 (-1) = xs := by
  have hcount : ((xs.length : Int) + -1 - 0 + 1).toNat = xs.length := by omega
  simp only [lrange, show ¬ (0 : Int) < 0 by decide, show (-1 : Int) < 0 by decide, if_true, if_false, Int.toNat_zero,
    List.drop_zero, hcount, List.take_length]

theorem exec_lrange (sv : Server) (key : List Char) :
    sv.exec ["LRANGE".toList, key, "0".toList, "-1".toList] = (sv, .ARRAY (sv key)) := by
  have hstart : indexArg "0".toList = some 0 := by decide
  have hstop : indexArg "-1".toList = some (-1) := by decide
  have hname : "LRANGE".toList ≠ "RPUSH".toList := by decide
  rw [Server.exec, if_neg hname, if_pos rfl, Server.lrangeReply, hstart, hstop]
  simp only [lrange_all]

theorem exec_rpush (sv : Server) (args : List (List Char)) : sv.exec ("RPUSH".toList :: args) = sv.rpush args := by
  rw [Server.exec, if_pos rfl]

/-- A command appends to a list and says how long it is, or changes nothing. -/
theorem exec_cases (sv : Server) (argv : List (List Char)) :
    (∃ key values, (sv.exec argv).1 = Function.update sv key (sv key ++ values)) ∧
      ((sv.exec argv).2.type ≠ .INTEGER → (sv.exec argv).1 = sv) := by
  have hsame : ∃ key values, sv = Function.update sv key (sv key ++ values) :=
    ⟨[], [], by rw [List.append_nil, Function.update_eq_self]⟩
  cases argv with
  | nil => exact ⟨hsame, fun _ => rfl⟩
  | cons name args =>
    by_cases hpush : name = "RPUSH".toList
    · rw [hpush, exec_rpush]
      unfold Server.rpush
      split
      · exact ⟨⟨_, _, rfl⟩, fun h => absurd rfl h⟩
      · exact ⟨hsame, fun _ => rfl⟩
    · rw [Server.exec, if_neg hpush]
      split
      · exact ⟨hsame, fun _ => rfl⟩
      · exact ⟨hsame, fun _ => rfl⟩

/-- No command makes a list shorter. -/
theorem length_le_redisCommand (format : Format) (sv : Server) (strCmd : String) (key : List Char) :
    (sv key).length ≤ ((redisCommand format sv strCmd).1 key).length := by
  unfold redisCommand
  split
  · exact Nat.le_refl _
  · next argv _ =>
    obtain ⟨key', values, heq⟩ := (exec_cases sv argv).1
    show (sv key).length ≤ ((sv.exec argv).1 key).length
    rw [heq]
    by_cases hkey : key = key'
    · subst hkey
      rw [Function.update_self, List.length_append]
      omega
    · rw [Function.update_of_ne hkey]

/-- A command that is not answered with a number changes nothing. -/
theorem redisCommand_of_type_ne {format : Format} {sv : Server} {strCmd : String}
    (h : (redisCommand format sv strCmd).2.map Reply.type ≠ some .INTEGER) : (redisCommand format sv strCmd).1 = sv := by
  unfold redisCommand at h ⊢
  cases hformat : format strCmd.toList with
  | none => rfl
  | some argv =>
    rw [hformat] at h
    exact (exec_cases sv argv).2 fun heq => h (congrArg some heq)

end Perception.RedisDb
