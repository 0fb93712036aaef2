import Mathlib.Data.List.Infix
import Perception.Cfg.LoadCfg

/-!
# Camera discovery

A probe is sent to all cameras, and the addresses in the replies are put into an array.
Each address of the array is asked for its capabilities, and the last media address that
contains the wanted text is returned. What comes from the network, and what memory holds
that nothing has been written to, are inputs.
-/
namespace Perception.Onvif

set_option autoImplicit false

open Perception.Db (cString)
open Perception.Cfg (NulFree)

def ONVIF_ADDRESS_SIZE : Nat := 178
def MAX_DETECT_IPC : Nat := 200

structure ProbeMatchType where
  XAddrs : Option (List Char)
  deriving DecidableEq

/-- A reply that is received; `error` is set if the environment has an error afterwards. -/
structure Reply where
  error : Bool
  ProbeMatches : Option (List ProbeMatchType)
  deriving DecidableEq

/-- Whether there is an environment, whether the probe can be sent, and the replies until a
receive fails. -/
structure Probe where
  soap : Bool
  sent : Bool
  replies : List Reply
  deriving DecidableEq

/-- An address is written behind all matches of its reply; nothing may be written behind the
array. -/
def putMatch (count : Nat) (DeviceXAddr : List (Option (List Char))) (probeMatch : ProbeMatchType) :
    Option (List (Option (List Char))) :=
  if count - 1 < DeviceXAddr.length then some (DeviceXAddr.set (count - 1) probeMatch.XAddrs) else none

def recvMatches (s : List (Option (List Char)) × Nat) (rep : Reply) : Option (List (Option (List Char)) × Nat) :=
  if rep.error then some s
  else
    match rep.ProbeMatches with
    | none => some s
    | some ProbeMatch => do
      let count := s.2 + ProbeMatch.length
      let DeviceXAddr ← ProbeMatch.foldlM (putMatch count) s.1
      pure (DeviceXAddr, count)

def ONVIF_DetectDevice (DeviceXAddr : List (Option (List Char))) (probe : Probe) :
    Option (List (Option (List Char)) × Nat) :=
  if probe.soap && probe.sent then probe.replies.foldlM recvMatches (DeviceXAddr, 0) else some (DeviceXAddr, 0)

structure AddressBuf where
  chars : List Char
  size : chars.length = ONVIF_ADDRESS_SIZE

theorem AddressBuf.zero_size : (List.replicate ONVIF_ADDRESS_SIZE (Char.ofNat 0)).length = ONVIF_ADDRESS_SIZE :=
  List.length_replicate

def AddressBuf.zero : AddressBuf := ⟨List.replicate ONVIF_ADDRESS_SIZE (Char.ofNat 0), zero_size⟩

/-- The first `n` characters of a text, filled up with NULs; the rest stays as it is. -/
def strncpy (dst src : List Char) (n : Nat) : List Char :=
  let text := (cString src).take n
  text ++ List.replicate (n - text.length) (Char.ofNat 0) ++ dst.drop n

theorem AddressBuf.put_size (buf : AddressBuf) (src : List Char) :
    (strncpy buf.chars src (ONVIF_ADDRESS_SIZE - 1)).length = ONVIF_ADDRESS_SIZE := by
  have hbuf := buf.size
  have htake := List.length_take_le (ONVIF_ADDRESS_SIZE - 1) (cString src)
  rw [strncpy, List.length_append, List.length_append, List.length_replicate, List.length_drop, hbuf]
  unfold ONVIF_ADDRESS_SIZE at *
  omega

def AddressBuf.put (buf : AddressBuf) (src : List Char) : AddressBuf :=
  ⟨strncpy buf.chars src (ONVIF_ADDRESS_SIZE - 1), buf.put_size src⟩

structure tagCapabilities where
  MediaXAddr : AddressBuf
  EventXAddr : AddressBuf

def tagCapabilities.zero : tagCapabilities := ⟨AddressBuf.zero, AddressBuf.zero⟩

/-- A service of a camera, which need not say where it is. -/
structure Service where
  XAddr : Option (List Char)
  deriving DecidableEq

structure Capabilities where
  Media : Option Service
  Events : Option Service
  deriving DecidableEq

/-- Whether there is an environment, the result of the authentication, and the answer of the
camera if the call succeeds; it need not have capabilities in it. -/
structure CapabilitiesCall where
  soap : Bool
  auth : Int
  answer : Option (Option Capabilities)
  deriving DecidableEq

/-- What comes of a call, by address, user and password. -/
abbrev Camera := (DeviceXAddr usename password : List Char) → CapabilitiesCall

def putService (buf : AddressBuf) (service : Option Service) : AddressBuf :=
  match service with
  | none => buf
  | some service =>
    match service.XAddr with
    | none => buf
    | some XAddr => buf.put XAddr

/-- The result and `capa`, which is not touched before the camera has answered. -/
def ONVIF_GetCapabilities (camera : Camera) (DeviceXAddr usename password : Option (List Char))
    (capa : tagCapabilities) : Int × tagCapabilities :=
  match DeviceXAddr, usename, password with
  | some DeviceXAddr, some usename, some password =>
    let call := camera DeviceXAddr usename password
    if call.soap = false then (-1, capa)
    else if 0 ≠ call.auth then (-1, capa)
    else
      match call.answer with
      | none => (-1, capa)
      | some none => (-1, tagCapabilities.zero)
      | some (some rep) =>
        (0, ⟨putService AddressBuf.zero rep.Media, putService AddressBuf.zero rep.Events⟩)
  | _, _, _ => (-1, capa)

/-- `capa` of the loop is new in every turn; `memory` is what it holds then, and `cameras` what
comes of the call of the turn. -/
def selectMedia (cameras : Nat → Camera) (memory : Nat → tagCapabilities) (DeviceXAddr : List (Option (List Char)))
    (strIp strUserName strPwd : List Char) (strMediaAddr : List Char) (i : Nat) : List Char :=
  let r := ONVIF_GetCapabilities (cameras i) (DeviceXAddr[i]?.join) (some (cString strUserName))
    (some (cString strPwd)) (memory i)
  let strTemp := r.2.MediaXAddr.chars
  if strIp <:+: strTemp then strTemp else strMediaAddr

/-- There is no result if the array is written behind its end. -/
def GetMediaAddr (cameras : Nat → Camera) (memory : Nat → tagCapabilities) (probe : Probe)
    (strIp strUserName strPwd : List Char) : Option (List Char) := do
  let (DeviceXAddr, s32DeviceCount) ← ONVIF_DetectDevice (List.replicate MAX_DETECT_IPC none) probe
  pure ((List.range s32DeviceCount).foldl (selectMedia cameras memory DeviceXAddr strIp strUserName strPwd) [])

/-- The replies that are looked at. -/
def Probe.received (probe : Probe) : List Reply := if probe.soap && probe.sent then probe.replies else []

def Reply.matches (rep : Reply) : List ProbeMatchType := if rep.error then [] else rep.ProbeMatches.getD []

/-- Of the matches of a reply only the last is kept, behind a slot for each of the others. -/
def kept (ms : List ProbeMatchType) : List (Option (List Char)) :=
  match ms.getLast? with
  | none => []
  | some m => List.replicate (ms.length - 1) none ++ [m.XAddrs]

theorem kept_concat (ms : List ProbeMatchType) (m : ProbeMatchType) :
    kept (ms ++ [m]) = List.replicate ms.length none ++ [m.XAddrs] := by
  rw [kept, List.getLast?_concat, List.length_append]
  rfl

/-- A slot of the array is its own match or stays empty. -/
theorem forall₂_kept (ms : List ProbeMatchType) :
    List.Forall₂ (fun slot m => slot = none ∨ slot = m.XAddrs) (kept ms) ms := by
  have hempty (ms : List ProbeMatchType) :
      List.Forall₂ (fun slot m => slot = none ∨ slot = m.XAddrs) (List.replicate ms.length none) ms := by
    induction ms with
    | nil => exact .nil
    | cons m ms ih => exact .cons (.inl rfl) ih
  rcases List.eq_nil_or_concat ms with rfl | ⟨ms, m, rfl⟩
  · exact .nil
  · rw [List.concat_eq_append, kept_concat]
    exact List.rel_append (hempty ms) (.cons (.inr rfl) .nil)

theorem length_kept (ms : List ProbeMatchType) : (kept ms).length = ms.length := (forall₂_kept ms).length_eq

theorem recvMatches_eq (s : List (Option (List Char)) × Nat) (rep : Reply) :
    recvMatches s rep = (rep.matches.foldlM (putMatch (s.2 + rep.matches.length)) s.1).map
      fun DeviceXAddr => (DeviceXAddr, s.2 + rep.matches.length) := by
  unfold recvMatches Reply.matches
  cases rep.error with
  | true => rfl
  | false =>
    cases rep.ProbeMatches with
    | none => rfl
    | some ms =>
      simp only [Bool.false_eq_true, if_false, Option.getD_some]
      cases ms.foldlM (putMatch (s.2 + ms.length)) s.1 with
      | none => rfl
      | some DeviceXAddr => rfl

/-- The matches of one reply go over each other. -/
theorem foldlM_putMatch {count : Nat} {DeviceXAddr : List (Option (List Char))} (h : count - 1 < DeviceXAddr.length)
    (ms : List ProbeMatchType) :
    ms.foldlM (putMatch count) DeviceXAddr =
      some ((ms.getLast?.map fun m => DeviceXAddr.set (count - 1) m.XAddrs).getD DeviceXAddr) := by
  induction ms using List.reverseRecOn with
  | nil => rfl
  | append_singleton ms m ih =>
    rw [List.foldlM_append, ih, List.getLast?_concat]
    cases ms.getLast? with
    | none =>
      show putMatch count DeviceXAddr m >>= pure = _
      rw [putMatch, if_pos h]
      rfl
    | some m' =>
      show putMatch count (DeviceXAddr.set (count - 1) m'.XAddrs) m >>= pure = _
      rw [putMatch, if_pos (by rwa [List.length_set]), List.set_set]
      rfl

/-- An empty array is written behind `k` slots that stay empty. -/
theorem set_replicate {k n : Nat} (hs : List (Option (List Char))) (h : k < n) (x : Option (List Char)) :
    (hs ++ List.replicate n none).set (hs.length + k) x =
      hs ++ (List.replicate k none ++ [x]) ++ List.replicate (n - (k + 1)) none := by
  have hsplit : List.replicate n (none : Option (List Char)) =
      List.replicate k none ++ none :: List.replicate (n - (k + 1)) none := by
    rw [← List.replicate_succ, ← List.replicate_add]
    congr 1
    omega
  rw [hsplit, List.set_append_right _ _ (Nat.le_add_right _ _), Nat.add_sub_cancel_left,
    List.set_append_right _ _ (Nat.le_of_eq List.length_replicate), List.length_replicate, Nat.sub_self,
    List.set_cons_zero, List.append_assoc, List.append_assoc]
  rfl

theorem recvMatches_kept (hs : List (Option (List Char))) {n : Nat} {rep : Reply} (h : rep.matches.length ≤ n) :
    recvMatches (hs ++ List.replicate n none, hs.length) rep =
      some (hs ++ kept rep.matches ++ List.replicate (n - rep.matches.length) none, (hs ++ kept rep.matches).length) := by
  rw [recvMatches_eq, List.length_append, length_kept]
  generalize rep.matches = ms at h ⊢
  induction ms using List.reverseRecOn with
  | nil => simp [kept]
  | append_singleton ms m =>
    rw [List.length_append, List.length_singleton] at h ⊢
    have hindex : hs.length + (ms.length + 1) - 1 = hs.length + ms.length := rfl
    have hbound : hs.length + (ms.length + 1) - 1 < (hs ++ List.replicate n (none : Option (List Char))).length := by
      rw [List.length_append, List.length_replicate]
      omega
    rw [foldlM_putMatch hbound, List.getLast?_concat, hindex, kept_concat]
    simp only [Option.map_some, Option.getD_some, set_replicate hs h]

/-- The array after the replies, and how much of it is used. -/
theorem foldlM_recvMatches (hs : List (Option (List Char))) {n : Nat} {replies : List Reply}
    (h : (replies.flatMap Reply.matches).length ≤ n) :
    replies.foldlM recvMatches (hs ++ List.replicate n none, hs.length) =
      some (hs ++ (replies.flatMap fun rep => kept rep.matches) ++
          List.replicate (n - (replies.flatMap Reply.matches).length) none,
        (hs ++ replies.flatMap fun rep => kept rep.matches).length) := by
  induction replies generalizing hs n with
  | nil => simp
  | cons rep replies ih =>
    rw [List.flatMap_cons, List.length_append] at h
    have hrest : (replies.flatMap Reply.matches).length ≤ n - rep.matches.length := by omega
    rw [List.foldlM_cons, recvMatches_kept hs (by omega), Option.bind_eq_bind, Option.bind_some, ih _ hrest,
      List.flatMap_cons, List.flatMap_cons, @List.length_append _ rep.matches, Nat.sub_sub, List.append_assoc hs]

/-- The slots that are asked. -/
def heard (probe : Probe) : List (Option (List Char)) := probe.received.flatMap fun rep => kept rep.matches

theorem ONVIF_DetectDevice_eq {probe : Probe} (h : (probe.received.flatMap Reply.matches).length ≤ MAX_DETECT_IPC) :
    ONVIF_DetectDevice (List.replicate MAX_DETECT_IPC none) probe =
      some (heard probe ++ List.replicate (MAX_DETECT_IPC - (probe.received.flatMap Reply.matches).length) none,
        (heard probe).length) := by
  have hrun := foldlM_recvMatches [] h
  rw [List.nil_append, List.nil_append] at hrun
  unfold ONVIF_DetectDevice
  unfold heard
  rw [← hrun, Probe.received]
  cases probe.soap && probe.sent with
  | true => rfl
  | false => rfl

/-- The media address buffer after a call that has cleared it. -/
def written (camera : Camera) (usename password : List Char) (slot : Option (List Char)) : Option (List Char) :=
  slot.bind fun DeviceXAddr =>
    let call := camera DeviceXAddr usename password
    if call.soap ∧ call.auth = 0 then
      call.answer.map fun rep => (putService AddressBuf.zero (rep.bind Capabilities.Media)).chars
    else none

theorem ONVIF_GetCapabilities_media (camera : Camera) (slot : Option (List Char)) (usename password : List Char)
    (capa : tagCapabilities) :
    (ONVIF_GetCapabilities camera slot (some usename) (some password) capa).2.MediaXAddr.chars =
      (written camera usename password slot).getD capa.MediaXAddr.chars := by
  cases slot with
  | none => rfl
  | some DeviceXAddr =>
    simp only [ONVIF_GetCapabilities, written, Option.bind_some]
    cases (camera DeviceXAddr usename password).soap with
    | false => rfl
    | true =>
      by_cases hauth : (camera DeviceXAddr usename password).auth = 0
      · rw [if_neg (by decide), if_neg (not_not.mpr hauth.symm), if_pos ⟨rfl, hauth⟩]
        cases (camera DeviceXAddr usename password).answer with
        | none => rfl
        | some rep =>
          cases rep with
          | none => rfl
          | some rep => rfl
      · rw [if_neg (by decide), if_pos (Ne.symm hauth), if_neg fun h => hauth h.2]
        rfl

end Perception.Onvif
