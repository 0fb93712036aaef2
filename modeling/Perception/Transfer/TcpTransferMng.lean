import Perception.Lib.SortedMap
import Mathlib.Data.String.Basic
import Mathlib.Data.List.Nodup
import Mathlib.Data.List.Infix

/-!
# Which decoder a connection's bytes go to

`CTcpTransferMng` keeps one `CNetTcpDataPkg` object for each key, and the key is the
text of the server port followed by the text of the peer, with nothing in between.
What an object does with the bytes is the subject of `Perception.Net`; here an object
is the number of its creation.
-/
namespace Perception.Transfer

set_option autoImplicit false

open Perception.Lib

/-- `substr(find(':') + 1)`; without a colon that is the whole text. -/
def substrBehindColon (s : String) : String :=
  match s.toList.findIdx? (· == ':') with
  | none => s
  | some i => String.ofList (s.toList.drop (i + 1))

theorem substrBehindColon_append {ip : String} (h : ':' ∉ ip.toList) (port : String) :
    substrBehindColon (ip ++ ":" ++ port) = port := by
  have hidx : (ip ++ ":" ++ port).toList.findIdx? (· == ':') = some ip.toList.length := by
    rw [List.findIdx?_eq_some_iff_getElem]
    refine ⟨by simp, by simp, fun j hj => ?_⟩
    have hne : ip.toList[j] ≠ ':' := fun he => h (he ▸ List.getElem_mem hj)
    simpa [List.getElem_append_left, hj] using hne
  unfold substrBehindColon
  rw [hidx]
  simp

/-- The part of `CTcpTransferMng` that concerns connections: the map, and how many
objects were created so far. -/
structure TcpTransferMng where
  m_mapNetTcpDataPkgPtr : List (String × Nat)
  created : Nat

namespace TcpTransferMng

def new : TcpTransferMng := ⟨[], 0⟩

def OnTcpConnect (t : TcpTransferMng) (strPeerConnKey strLocalConnKey : String) (bStatus : Bool) :
    TcpTransferMng :=
  let strTcpServerPort := substrBehindColon strLocalConnKey
  let strKey := strTcpServerPort ++ strPeerConnKey
  match SortedMap.find? t.m_mapNetTcpDataPkgPtr strKey with
  | none =>
    { m_mapNetTcpDataPkgPtr := SortedMap.insert t.m_mapNetTcpDataPkgPtr strKey t.created
      created := t.created + 1 }
  | some _ =>
    if !bStatus then
      { t with m_mapNetTcpDataPkgPtr := SortedMap.erase t.m_mapNetTcpDataPkgPtr strKey }
    else t

/-- The object that `OnTcpMessage` gives the bytes to, if any. -/
def OnTcpMessage (t : TcpTransferMng) (strPeerConnKey strLocalConnKey : String) : Option Nat :=
  let strTcpServerPort := substrBehindColon strLocalConnKey
  let strKey := strTcpServerPort ++ strPeerConnKey
  SortedMap.find? t.m_mapNetTcpDataPkgPtr strKey

end TcpTransferMng

/-- A connection: the server port it came in on, and the peer's `ip:port`. -/
structure Connection where
  port : String
  peer : String
  deriving DecidableEq

/-- The key of the map. -/
def Connection.key (c : Connection) : String := c.port ++ c.peer

/-- What the network library reports, with the local ip that the connection came in on. -/
inductive NetEvent where
  | connect (c : Connection) (ip : String)
  | data (c : Connection) (ip : String) (bytes : List UInt8)
  | disconnect (c : Connection) (ip : String)

/-- Bytes of a connection that were given to an object. -/
structure Delivery where
  conn : Connection
  ptr : Nat
  bytes : List UInt8
  deriving DecidableEq

def localKey (c : Connection) (ip : String) : String := ip ++ ":" ++ c.port

namespace TcpTransferMng

def step (t : TcpTransferMng) : NetEvent → TcpTransferMng
  | .connect c ip => t.OnTcpConnect c.peer (localKey c ip) true
  | .data _ _ _ => t
  | .disconnect c ip => t.OnTcpConnect c.peer (localKey c ip) false

def deliver (t : TcpTransferMng) : NetEvent → List Delivery
  | .data c ip bytes => ((t.OnTcpMessage c.peer (localKey c ip)).map (⟨c, ·, bytes⟩)).toList
  | _ => []

def run (t : TcpTransferMng) (es : List NetEvent) : TcpTransferMng := es.foldl step t

def deliveries (t : TcpTransferMng) : List NetEvent → List Delivery
  | [] => []
  | e :: es => t.deliver e ++ (t.step e).deliveries es

end TcpTransferMng

namespace NetEvent

/-- The connections that are live after an event. -/
def liveAfter (live : List Connection) : NetEvent → List Connection
  | .connect c _ => c :: live
  | .data _ _ _ => live
  | .disconnect c _ => live.erase c

/-- The library reports a connect first and a disconnect last, and local addresses are
IPv4. -/
def Admissible (live : List Connection) : NetEvent → Prop
  | .connect c ip => c ∉ live ∧ ':' ∉ ip.toList
  | .data c ip _ => c ∈ live ∧ ':' ∉ ip.toList
  | .disconnect c ip => c ∈ live ∧ ':' ∉ ip.toList

instance (live : List Connection) : (e : NetEvent) → Decidable (e.Admissible live)
  | .connect _ _ => inferInstanceAs (Decidable (_ ∧ _))
  | .data _ _ _ => inferInstanceAs (Decidable (_ ∧ _))
  | .disconnect _ _ => inferInstanceAs (Decidable (_ ∧ _))

end NetEvent

def live (live₀ : List Connection) (es : List NetEvent) : List Connection :=
  es.foldl NetEvent.liveAfter live₀

def WellFormed : List Connection → List NetEvent → Prop
  | _, [] => True
  | live₀, e :: es => e.Admissible live₀ ∧ WellFormed (e.liveAfter live₀) es

instance decidableWellFormed : (live₀ : List Connection) → (es : List NetEvent) →
    Decidable (WellFormed live₀ es)
  | _, [] => isTrue trivial
  | live₀, e :: es =>
    have : Decidable (WellFormed (e.liveAfter live₀) es) := decidableWellFormed _ es
    inferInstanceAs (Decidable (_ ∧ _))

/-- There is one entry for each live connection and no other. -/
def EntriesMatch (t : TcpTransferMng) (live : List Connection) : Prop :=
  (SortedMap.keys t.m_mapNetTcpDataPkgPtr).Perm (live.map Connection.key)

/-- No object is given bytes of two connections. -/
def NotShared (ds : List Delivery) : Prop := ∀ d ∈ ds, ∀ d' ∈ ds, d.ptr = d'.ptr → d.conn = d'.conn

instance (ds : List Delivery) : Decidable (NotShared ds) :=
  inferInstanceAs (Decidable (∀ d ∈ ds, ∀ d' ∈ ds, _ → _))

instance (t : TcpTransferMng) (live : List Connection) : Decidable (EntriesMatch t live) :=
  inferInstanceAs (Decidable (List.Perm _ _))

/-- The decoders of the connections are isolated throughout a run. -/
def Isolated (es : List NetEvent) : Prop :=
  NotShared (TcpTransferMng.new.deliveries es) ∧
    ∀ pre, pre <+: es → EntriesMatch (TcpTransferMng.new.run pre) (live [] pre)

/-- No two connections that are live at the same time have the same key. -/
def KeysDistinct (es : List NetEvent) : Prop :=
  ∀ pre, pre <+: es → ((live [] pre).map Connection.key).Nodup

instance (es : List NetEvent) : Decidable (KeysDistinct es) :=
  decidable_of_iff (∀ pre ∈ es.inits, ((live [] pre).map Connection.key).Nodup)
    (forall_congr' fun pre => imp_congr_left (List.mem_inits pre es))

namespace TcpTransferMng

theorem step_connect (t : TcpTransferMng) (c : Connection) {ip : String} (h : ':' ∉ ip.toList) :
    t.step (.connect c ip) =
      if c.key ∈ SortedMap.keys t.m_mapNetTcpDataPkgPtr then t
      else ⟨SortedMap.insert t.m_mapNetTcpDataPkgPtr c.key t.created, t.created + 1⟩ := by
  have hkey : substrBehindColon (localKey c ip) ++ c.peer = c.key := by
    rw [localKey, substrBehindColon_append h, Connection.key]
  rw [step, OnTcpConnect, hkey]
  cases hf : SortedMap.find? t.m_mapNetTcpDataPkgPtr c.key with
  | none => rw [if_neg (SortedMap.find?_eq_none.mp hf)]
  | some p =>
    rw [if_pos (SortedMap.mem_keys.mpr ⟨p, hf⟩)]
    rfl

theorem step_disconnect (t : TcpTransferMng) (c : Connection) {ip : String} (h : ':' ∉ ip.toList)
    (hc : c.key ∈ SortedMap.keys t.m_mapNetTcpDataPkgPtr) :
    t.step (.disconnect c ip) =
      { t with m_mapNetTcpDataPkgPtr := SortedMap.erase t.m_mapNetTcpDataPkgPtr c.key } := by
  have hkey : substrBehindColon (localKey c ip) ++ c.peer = c.key := by
    rw [localKey, substrBehindColon_append h, Connection.key]
  obtain ⟨p, hp⟩ := SortedMap.mem_keys.mp hc
  rw [step, OnTcpConnect, hkey, hp]
  rfl

theorem deliver_data (t : TcpTransferMng) (c : Connection) {ip : String} (h : ':' ∉ ip.toList)
    (bytes : List UInt8) :
    t.deliver (.data c ip bytes) =
      ((SortedMap.find? t.m_mapNetTcpDataPkgPtr c.key).map (⟨c, ·, bytes⟩)).toList := by
  have hkey : substrBehindColon (localKey c ip) ++ c.peer = c.key := by
    rw [localKey, substrBehindColon_append h, Connection.key]
  rw [deliver, OnTcpMessage, hkey]

/-- The invariant of an isolated run: entries match, every object is older than the next,
no object has two keys, and the bytes an entry's object got are those of its connection. -/
structure Inv (t : TcpTransferMng) (live : List Connection) (seen : List Delivery) : Prop where
  sorted : SortedMap.Sorted t.m_mapNetTcpDataPkgPtr
  entries : EntriesMatch t live
  notShared : NotShared seen
  older : ∀ d ∈ seen, d.ptr < t.created
  entryOlder : ∀ k p, SortedMap.find? t.m_mapNetTcpDataPkgPtr k = some p → p < t.created
  oneKey : ∀ k k' p, SortedMap.find? t.m_mapNetTcpDataPkgPtr k = some p →
    SortedMap.find? t.m_mapNetTcpDataPkgPtr k' = some p → k = k'
  owned : ∀ k p, SortedMap.find? t.m_mapNetTcpDataPkgPtr k = some p →
    ∀ d ∈ seen, d.ptr = p → d.conn ∈ live ∧ d.conn.key = k

theorem inv_new : Inv new [] [] where
  sorted := SortedMap.sorted_nil
  entries := List.Perm.refl _
  notShared := fun d hd => by cases hd
  older := fun d hd => by cases hd
  entryOlder := fun k p h => by cases h
  oneKey := fun k k' p h => by cases h
  owned := fun k p h => by cases h

theorem inv_connect {t : TcpTransferMng} {live : List Connection} {seen : List Delivery}
    (h : Inv t live seen) {c : Connection} {ip : String} (hip : ':' ∉ ip.toList)
    (hkeys : ((c :: live).map Connection.key).Nodup) :
    Inv (t.step (.connect c ip)) (c :: live) seen := by
  have hnew : c.key ∉ SortedMap.keys t.m_mapNetTcpDataPkgPtr := by
    rw [h.entries.mem_iff]
    exact (List.nodup_cons.mp hkeys).1
  rw [step_connect t c hip, if_neg hnew]
  refine ⟨h.sorted.insert _ _, ?_, h.notShared, ?_, ?_, ?_, ?_⟩
  · exact (SortedMap.keys_insert_perm _ hnew).trans (h.entries.cons _)
  · exact fun d hd => Nat.lt_succ_of_lt (h.older d hd)
  · intro k p hp
    rw [SortedMap.find?_insert] at hp
    split at hp
    · cases hp
      exact Nat.lt_succ_self _
    · exact Nat.lt_succ_of_lt (h.entryOlder k p hp)
  · intro k k' p hp hp'
    rw [SortedMap.find?_insert] at hp hp'
    split at hp <;> split at hp'
    · next hk hk' => rw [hk, hk']
    · cases hp
      exact absurd (h.entryOlder k' _ hp') (Nat.lt_irrefl _)
    · cases hp'
      exact absurd (h.entryOlder k _ hp) (Nat.lt_irrefl _)
    · exact h.oneKey k k' p hp hp'
  · intro k p hp d hd hdp
    rw [SortedMap.find?_insert] at hp
    split at hp
    · cases hp
      exact absurd (hdp ▸ h.older d hd) (Nat.lt_irrefl _)
    · obtain ⟨hlive, hkey⟩ := h.owned k p hp d hd hdp
      exact ⟨List.mem_cons_of_mem c hlive, hkey⟩

theorem inv_disconnect {t : TcpTransferMng} {live : List Connection} {seen : List Delivery}
    (h : Inv t live seen) {c : Connection} {ip : String} (hip : ':' ∉ ip.toList) (hc : c ∈ live)
    (hkeys : (live.map Connection.key).Nodup) :
    Inv (t.step (.disconnect c ip)) (live.erase c) seen := by
  have hmem : c.key ∈ SortedMap.keys t.m_mapNetTcpDataPkgPtr :=
    h.entries.mem_iff.mpr (List.mem_map_of_mem hc)
  have hfind : ∀ {k p}, SortedMap.find? (SortedMap.erase t.m_mapNetTcpDataPkgPtr c.key) k = some p →
      k ≠ c.key ∧ SortedMap.find? t.m_mapNetTcpDataPkgPtr k = some p := by
    intro k p hp
    rw [SortedMap.find?_erase] at hp
    split at hp
    · cases hp
    · next hk => exact ⟨hk, hp⟩
  rw [step_disconnect t c hip hmem]
  refine ⟨h.sorted.erase _, ?_, h.notShared, h.older, fun k p hp => h.entryOlder k p (hfind hp).2,
    fun k k' p hp hp' => h.oneKey k k' p (hfind hp).2 (hfind hp').2, ?_⟩
  · have herase : ((live.erase c).map Connection.key) = (live.map Connection.key).filter (· ≠ c.key) := by
      rw [hkeys.of_map.erase_eq_filter, List.filter_map]
      refine congrArg _ (List.filter_congr fun x hx => ?_)
      rcases eq_or_ne x c with rfl | hxc
      · simp
      · have hk : x.key ≠ c.key := fun he => hxc (List.inj_on_of_nodup_map hkeys hx hc he)
        simp [hxc, hk]
    rw [EntriesMatch, herase, SortedMap.keys_erase]
    exact h.entries.filter _
  · intro k p hp d hd hdp
    obtain ⟨hk, hp⟩ := hfind hp
    obtain ⟨hlive, hkey⟩ := h.owned k p hp d hd hdp
    exact ⟨(List.mem_erase_of_ne fun he => hk (by rw [← hkey, he])).mpr hlive, hkey⟩

theorem inv_data {t : TcpTransferMng} {live : List Connection} {seen : List Delivery}
    (h : Inv t live seen) {c : Connection} {ip : String} (hip : ':' ∉ ip.toList) (hc : c ∈ live)
    (bytes : List UInt8) (hkeys : (live.map Connection.key).Nodup) :
    Inv t live (seen ++ t.deliver (.data c ip bytes)) := by
  rw [deliver_data t c hip]
  cases hp : SortedMap.find? t.m_mapNetTcpDataPkgPtr c.key with
  | none => rwa [Option.map_none, Option.toList_none, List.append_nil]
  | some p =>
    rw [Option.map_some, Option.toList_some]
    have hsame : ∀ d ∈ seen, d.ptr = p → d.conn = c := by
      intro d hd hdp
      obtain ⟨hlive, hkey⟩ := h.owned _ p hp d hd hdp
      exact List.inj_on_of_nodup_map hkeys hlive hc hkey
    have hcases : ∀ {d}, d ∈ seen ++ [(⟨c, p, bytes⟩ : Delivery)] → d ∈ seen ∨ d = ⟨c, p, bytes⟩ :=
      fun hd => (List.mem_append.mp hd).imp_right List.mem_singleton.mp
    refine ⟨h.sorted, h.entries, ?_, ?_, h.entryOlder, h.oneKey, ?_⟩
    · intro d hd d' hd' he
      rcases hcases hd with hd | rfl <;> rcases hcases hd' with hd' | rfl
      · exact h.notShared d hd d' hd' he
      · exact hsame d hd he
      · exact (hsame d' hd' he.symm).symm
      · rfl
    · intro d hd
      rcases hcases hd with hd | rfl
      · exact h.older d hd
      · exact h.entryOlder _ p hp
    · intro k p' hp' d hd hdp
      rcases hcases hd with hd | rfl
      · exact h.owned k p' hp' d hd hdp
      · exact ⟨hc, h.oneKey _ k p hp (hp'.trans (congrArg some hdp.symm))⟩

/-- One admissible event after which the live connections still have distinct keys. -/
theorem inv_step {t : TcpTransferMng} {live : List Connection} {seen : List Delivery}
    (h : Inv t live seen) {e : NetEvent} (he : e.Admissible live)
    (hkeys : (live.map Connection.key).Nodup) (hkeys' : ((e.liveAfter live).map Connection.key).Nodup) :
    Inv (t.step e) (e.liveAfter live) (seen ++ t.deliver e) := by
  cases e with
  | connect c ip =>
    rw [deliver, List.append_nil]
    · exact inv_connect h he.2 hkeys'
    · simp
  | data c ip bytes => exact inv_data h he.2 he.1 bytes hkeys
  | disconnect c ip =>
    rw [deliver, List.append_nil]
    · exact inv_disconnect h he.2 he.1 hkeys
    · simp

/-- A run from an isolated state whose live connections have distinct keys throughout. -/
theorem inv_run (es : List NetEvent) {t : TcpTransferMng} {live₀ : List Connection}
    {seen : List Delivery} (h : Inv t live₀ seen) (hw : WellFormed live₀ es)
    (hkeys : ∀ pre, pre <+: es → ((live live₀ pre).map Connection.key).Nodup) :
    Inv (t.run es) (live live₀ es) (seen ++ t.deliveries es) := by
  induction es generalizing t live₀ seen with
  | nil => rwa [deliveries, List.append_nil]
  | cons e es ih =>
    have hnow := hkeys [] List.nil_prefix
    have hnext := hkeys [e] ⟨es, rfl⟩
    have hstep := inv_step h hw.1 hnow hnext
    rw [deliveries, ← List.append_assoc]
    exact ih hstep hw.2 fun pre hpre => hkeys (e :: pre) (List.cons_prefix_cons.mpr ⟨rfl, hpre⟩)

theorem wellFormed_append {live₀ : List Connection} {pre post : List NetEvent}
    (h : WellFormed live₀ (pre ++ post)) : WellFormed live₀ pre := by
  induction pre generalizing live₀ with
  | nil => trivial
  | cons e pre ih => exact ⟨h.1, ih h.2⟩

/-- The entries are sorted in every state, whatever the events. -/
theorem sorted_run (es : List NetEvent) {t : TcpTransferMng}
    (h : SortedMap.Sorted t.m_mapNetTcpDataPkgPtr) :
    SortedMap.Sorted (t.run es).m_mapNetTcpDataPkgPtr := by
  have hconn : ∀ (t : TcpTransferMng) (p l : String) (b : Bool),
      SortedMap.Sorted t.m_mapNetTcpDataPkgPtr →
      SortedMap.Sorted (t.OnTcpConnect p l b).m_mapNetTcpDataPkgPtr := by
    intro t p l b ht
    unfold OnTcpConnect
    dsimp only
    split
    · exact ht.insert _ _
    · split
      · exact ht.erase _
      · exact ht
  induction es generalizing t with
  | nil => exact h
  | cons e es ih =>
    apply ih
    cases e with
    | connect c ip => exact hconn t _ _ _ h
    | data c ip bytes => exact h
    | disconnect c ip => exact hconn t _ _ _ h

/-- **The decoders are isolated exactly in the runs in which no two connections that are
live at the same time have the same key.** -/
theorem isolated_iff (es : List NetEvent) (hw : WellFormed [] es) : Isolated es ↔ KeysDistinct es := by
  constructor
  · rintro ⟨-, hentries⟩ pre hpre
    have hsorted := sorted_run pre (t := new) SortedMap.sorted_nil
    exact (hentries pre hpre).nodup_iff.mp hsorted.keys_nodup
  · intro hkeys
    refine ⟨(inv_run es inv_new hw hkeys).notShared, fun pre hpre => ?_⟩
    have hw' : WellFormed [] pre := by
      obtain ⟨post, rfl⟩ := hpre
      exact wellFormed_append hw
    exact (inv_run pre inv_new hw' fun pre' hpre' => hkeys pre' (hpre'.trans hpre)).entries

/-- A connection that comes back while another, of the same peer, stays. -/
theorem isolated_reconnect :
    let a : Connection := ⟨"6000", "10.0.0.2:5000"⟩
    let b : Connection := ⟨"6001", "10.0.0.2:5000"⟩
    Isolated [.connect a "10.0.0.1", .connect b "10.0.0.1", .data a "10.0.0.1" [0x7D],
      .disconnect a "10.0.0.1", .connect a "10.0.0.1", .data a "10.0.0.1" [0x0B]] :=
  (isolated_iff _ (by decide)).mpr (by decide)

/-- Server ports 1 and 11, peers whose addresses start with 11 and 1: the two connections
share one object, and when one of them closes the other has none. -/
theorem not_isolated_aliasing :
    let a : Connection := ⟨"1", "11.0.0.1:5000"⟩
    let b : Connection := ⟨"11", "1.0.0.1:5000"⟩
    let es : List NetEvent := [.connect a "10.0.0.1", .connect b "10.0.0.1", .data a "10.0.0.1" [0x7D],
      .data b "10.0.0.1" [0x0B], .disconnect a "10.0.0.1"]
    WellFormed [] es ∧ ¬ NotShared (new.deliveries es) ∧ ¬ EntriesMatch (new.run es) (live [] es) ∧
      ¬ Isolated es := by
  intro a b es
  have hshared : ¬ NotShared (new.deliveries es) := by decide
  exact ⟨by decide, hshared, by decide, fun h => hshared h.1⟩

end TcpTransferMng

end Perception.Transfer
