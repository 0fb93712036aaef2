import Perception.Lib.LastFound
import Perception.Onvif.OnvifIpc

/-!
# Which camera is picked

The wanted camera is the one whose address has the wanted host. The code looks for the host
in the media addresses instead, in all texts that the slots of the array can show.
-/
namespace Perception.Onvif

set_option autoImplicit false

open Perception.Lib
open Perception.Db (cString)
open Perception.Cfg (NulFree)

/-- Up to a port or a path. -/
def hostPart : List Char → List Char
  | '[' :: cs => '[' :: cs.takeWhile (fun c => c ≠ ']' && c ≠ '/') ++ [']']
  | cs => cs.takeWhile fun c => c ≠ ':' && c ≠ '/'

def hostOf (x : List Char) : Option (List Char) :=
  (("http://".toList.isPrefixOf? x).orElse fun _ => "https://".toList.isPrefixOf? x).map hostPart

def WellFormed (x : List Char) : Prop := NulFree x ∧ ∃ host, hostOf x = some host ∧ host ≠ []

/-- The matches of all replies, in their order. -/
def found (probe : Probe) : List ProbeMatchType := probe.received.flatMap Reply.matches

/-- The media address of a device, if the query succeeds. -/
def mediaOf (camera : Camera) (usename password x : List Char) : Option (List Char) :=
  let call := camera x usename password
  if call.soap ∧ call.auth = 0 then call.answer.bind fun rep => rep.bind fun rep => rep.Media.bind Service.XAddr
  else none

/-- The media address of a match, if its device has the host. -/
def mediaAddr (camera : Camera) (strIp usename password : List Char) (probeMatch : ProbeMatchType) :
    Option (List Char) :=
  probeMatch.XAddrs.bind fun x => if hostOf x = some strIp then mediaOf camera usename password x else none

/-- The media addresses of the devices with a host; the query of a match has its number. -/
def mediaAddrs (cameras : Nat → Camera) (probe : Probe) (strIp usename password : List Char) : List (List Char) :=
  ((found probe).mapIdx fun i m => mediaAddr (cameras i) strIp usename password m).filterMap id

/-- A text is one of the addresses, or empty if there is none. -/
def Picked (addrs : List (List Char)) (r : List Char) : Prop := cString r ∈ addrs ∨ (addrs = [] ∧ r = [])

/-- The slots, each with what has been written for it. -/
def shown (cameras : Nat → Camera) (probe : Probe) (usename password : List Char) : List (Option (List Char)) :=
  (heard probe).mapIdx fun i => written (cameras i) usename password

/-- What a slot can show that has not been written. -/
def InBuf (t : List Char) : Prop := t.length = ONVIF_ADDRESS_SIZE

instance : DecidablePred InBuf := fun t => inferInstanceAs (Decidable (t.length = ONVIF_ADDRESS_SIZE))

/-- The last text in which the host is found is one of the addresses, and was written; or the
host cannot be found, and there is no address. -/
def Settled (cameras : Nat → Camera) (probe : Probe) (strIp usename password : List Char) : Prop :=
  let addrs := mediaAddrs cameras probe strIp usename password
  let slots := shown cameras probe usename password
  SureFind (strIp <:+: ·) InBuf (cString · ∈ addrs) slots ∨
    ((∀ s ∈ slots, Quiet (strIp <:+: ·) InBuf s) ∧ addrs = [])

theorem slash_not_mem_hostPart (cs : List Char) : '/' ∉ hostPart cs := by
  unfold hostPart
  split
  · intro h
    rcases List.mem_append.mp h with h | h
    · rcases List.mem_cons.mp h with h | h
      · exact absurd h (by decide)
      · have hstop := List.mem_takeWhile_imp h
        simp at hstop
    · exact absurd (List.mem_singleton.mp h) (by decide)
  · intro h
    have hstop := List.mem_takeWhile_imp h
    simp at hstop

theorem slash_not_mem_of_hostOf {x host : List Char} (h : hostOf x = some host) : '/' ∉ host := by
  obtain ⟨cs, -, rfl⟩ := Option.map_eq_some_iff.mp h
  exact slash_not_mem_hostPart cs

theorem WellFormed.scheme {x : List Char} (h : WellFormed x) : ∃ cs, x = 'h' :: cs ∧ '/' ∈ cs := by
  obtain ⟨-, host, hhost, -⟩ := h
  obtain ⟨cs, hcs, -⟩ := Option.map_eq_some_iff.mp hhost
  cases hhttp : "http://".toList.isPrefixOf? x with
  | some cs' =>
    rw [← List.isPrefixOf?_eq_some_iff_append_eq.mp hhttp]
    exact ⟨_, rfl, List.mem_append_left _ (by decide : '/' ∈ "ttp://".toList)⟩
  | none =>
    rw [hhttp] at hcs
    rw [← List.isPrefixOf?_eq_some_iff_append_eq.mp hcs]
    exact ⟨_, rfl, List.mem_append_left _ (by decide : '/' ∈ "ttps://".toList)⟩

theorem mem_mediaAddrs {cameras : Nat → Camera} {probe : Probe} {strIp usename password m : List Char}
    (h : m ∈ mediaAddrs cameras probe strIp usename password) :
    ∃ i x, ((found probe)[i]?).bind ProbeMatchType.XAddrs = some x ∧ hostOf x = some strIp ∧
      mediaOf (cameras i) usename password x = some m := by
  obtain ⟨addr, haddr, rfl : addr = some m⟩ := List.mem_filterMap.mp h
  obtain ⟨i, hi, hm⟩ := List.mem_mapIdx.mp haddr
  obtain ⟨x, hx, hmedia⟩ := Option.bind_eq_some_iff.mp hm
  refine ⟨i, x, ?_, ?_⟩
  · rw [List.getElem?_eq_getElem hi]
    exact hx
  · split at hmedia
    · next hhost => exact ⟨hhost, hmedia⟩
    · cases hmedia

/-- If the host can be found in a text that was not written, it can be found in one that is
no address of a device. -/
theorem exists_stray {addrs : List (List Char)} {strIp t : List Char} (haddrs : ∀ m ∈ addrs, WellFormed m)
    (hip : addrs ≠ [] → '/' ∉ strIp) (ht : InBuf t) (hfound : strIp <:+: t) :
    ∃ t, InBuf t ∧ strIp <:+: t ∧ ¬ Picked addrs t := by
  have hlen : strIp.length ≤ ONVIF_ADDRESS_SIZE := ht ▸ hfound.length_le
  -- a buffer is too long to be empty, and an address starts with an h
  have hstray : ∀ c cs, InBuf (c :: cs) → strIp <:+: c :: cs → cString (c :: cs) ∉ addrs →
      ∃ t, InBuf t ∧ strIp <:+: t ∧ ¬ Picked addrs t := by
    intro c cs hbuf hin hnot
    exact ⟨c :: cs, hbuf, hin, fun h => h.elim hnot fun h => List.cons_ne_nil c cs h.2⟩
  rcases Nat.lt_or_eq_of_le hlen with hlt | heq
  · refine hstray 'x' (strIp ++ List.replicate (ONVIF_ADDRESS_SIZE - 1 - strIp.length) 'x') ?_ ?_ ?_
    · rw [InBuf, List.length_cons, List.length_append, List.length_replicate]
      omega
    · exact ⟨['x'], _, rfl⟩
    · intro hmem
      obtain ⟨cs, hcs, -⟩ := (haddrs _ hmem).scheme
      cases hcs
  · have hsame : strIp = t := hfound.eq_of_length (heq.trans ht.symm)
    cases t with
    | nil => cases ht
    | cons c cs =>
      apply hstray c cs ht hfound
      intro hmem
      obtain ⟨cs', hcs', hslash⟩ := (haddrs _ hmem).scheme
      apply hip (List.ne_nil_of_mem hmem)
      have hin : '/' ∈ cString (c :: cs) := hcs' ▸ List.mem_cons_of_mem _ hslash
      rw [hsame]
      exact (List.takeWhile_sublist _).subset hin

/-- What the loop looks at. -/
def texts (memory : Nat → tagCapabilities) (slots : List (Option (List Char))) : List (List Char) :=
  slots.mapIdx fun i s => s.getD (memory i).MediaXAddr.chars

theorem selectMedia_eq (cameras : Nat → Camera) (memory : Nat → tagCapabilities) (DeviceXAddr : List (Option (List Char)))
    (strIp strUserName strPwd strMediaAddr : List Char) (i : Nat) :
    selectMedia cameras memory DeviceXAddr strIp strUserName strPwd strMediaAddr i =
      let t := (written (cameras i) (cString strUserName) (cString strPwd) (DeviceXAddr[i]?.join)).getD
        (memory i).MediaXAddr.chars
      if strIp <:+: t then t else strMediaAddr := by
  simp only [selectMedia, ONVIF_GetCapabilities_media]

theorem GetMediaAddr_eq (cameras : Nat → Camera) (memory : Nat → tagCapabilities) (probe : Probe)
    (strIp strUserName strPwd : List Char) (hmax : (found probe).length ≤ MAX_DETECT_IPC) :
    GetMediaAddr cameras memory probe strIp strUserName strPwd =
      some (lastFound (strIp <:+: ·) [] (texts memory (shown cameras probe (cString strUserName) (cString strPwd)))) := by
  have htexts : texts memory (shown cameras probe (cString strUserName) (cString strPwd)) =
      (List.range (heard probe).length).map fun i =>
        (written (cameras i) (cString strUserName) (cString strPwd)
          ((heard probe ++ List.replicate (MAX_DETECT_IPC - (found probe).length) none)[i]?.join)).getD
            (memory i).MediaXAddr.chars := by
    apply List.ext_getElem (by simp [texts, shown])
    intro i hi hi'
    have hlt : i < (heard probe).length := by simpa using hi'
    simp [texts, shown, List.getElem?_append_left hlt, List.getElem?_eq_getElem hlt]
  rw [GetMediaAddr, ONVIF_DetectDevice_eq hmax, htexts, lastFound, List.foldl_map]
  simp only [← selectMedia_eq]
  rfl

theorem texts_shows (memory : Nat → tagCapabilities) (slots : List (Option (List Char))) :
    List.Forall₂ (Shows InBuf) slots (texts memory slots) := by
  refine List.forall₂_iff_get.mpr ⟨List.length_mapIdx.symm, fun i hi hi' => ?_⟩
  simp only [List.get_eq_getElem, texts, List.getElem_mapIdx]
  cases slots[i] with
  | some t => rfl
  | none => exact (memory i).MediaXAddr.size

/-- Memory may hold whatever the slots can show. -/
theorem exists_memory {slots : List (Option (List Char))} {xs : List (List Char)}
    (h : List.Forall₂ (Shows InBuf) slots xs) : ∃ memory, texts memory slots = xs := by
  obtain ⟨hlen, hshows⟩ := List.forall₂_iff_get.mp h
  refine ⟨fun i => if hi : InBuf (xs.getD i []) then ⟨⟨xs.getD i [], hi⟩, AddressBuf.zero⟩ else tagCapabilities.zero, ?_⟩
  apply List.ext_getElem (by rw [texts, List.length_mapIdx, hlen])
  intro i hi hi'
  have hi'' : i < slots.length := hlen ▸ hi'
  have hshow := hshows i hi'' hi'
  rw [List.get_eq_getElem, List.get_eq_getElem] at hshow
  simp only [texts, List.getElem_mapIdx]
  cases hs : slots[i] with
  | some t =>
    rw [hs] at hshow
    exact hshow.symm
  | none =>
    rw [hs] at hshow
    have hget : xs.getD i [] = xs[i] := (List.getElem_eq_getD []).symm
    have hbuf : InBuf (xs.getD i []) := hget ▸ hshow
    rw [dif_pos hbuf]
    exact hget

theorem putService_inBuf (buf : AddressBuf) (service : Option Service) : InBuf (putService buf service).chars :=
  (putService buf service).size

theorem written_inBuf {camera : Camera} {usename password : List Char} {slot : Option (List Char)} {t : List Char}
    (h : written camera usename password slot = some t) : InBuf t := by
  obtain ⟨DeviceXAddr, -, h⟩ := Option.bind_eq_some_iff.mp h
  by_cases hcall : (camera DeviceXAddr usename password).soap ∧ (camera DeviceXAddr usename password).auth = 0
  · rw [if_pos hcall] at h
    obtain ⟨rep, -, rfl⟩ := Option.map_eq_some_iff.mp h
    exact putService_inBuf _ _
  · rw [if_neg hcall] at h
    cases h

theorem shown_inBuf {cameras : Nat → Camera} {probe : Probe} {usename password t : List Char}
    (h : some t ∈ shown cameras probe usename password) : InBuf t := by
  obtain ⟨i, hi, hslot⟩ := List.mem_mapIdx.mp h
  exact written_inBuf hslot

theorem picked_iff_of_inBuf {addrs : List (List Char)} {t : List Char} (h : InBuf t) :
    Picked addrs t ↔ cString t ∈ addrs := by
  apply or_iff_left
  intro hnone
  rw [InBuf, hnone.2] at h
  cases h

theorem picked_nil_iff {addrs : List (List Char)} (haddrs : ∀ m ∈ addrs, WellFormed m) : Picked addrs [] ↔ addrs = [] := by
  constructor
  · rintro (hmem | ⟨hnone, -⟩)
    · obtain ⟨cs, hcs, -⟩ := (haddrs _ hmem).scheme
      cases hcs
    · exact hnone
  · exact fun hnone => .inr ⟨hnone, rfl⟩

/-- **The wanted camera.** Whatever memory holds, the media address of a device with the
wanted host is returned, or nothing if there is none, if and only if the last text in which
the host is found is such an address and no slot behind it shows what was in memory, or
there is no such address and the host can be found in no text. -/
theorem GetMediaAddr_picked_iff (cameras : Nat → Camera) (probe : Probe) (strIp strUserName strPwd : List Char)
    (hmax : (found probe).length ≤ MAX_DETECT_IPC)
    (hmedia : ∀ i x, ((found probe)[i]?).bind ProbeMatchType.XAddrs = some x →
      ∀ m, mediaOf (cameras i) (cString strUserName) (cString strPwd) x = some m → WellFormed m) :
    (∀ memory, ∃ r, GetMediaAddr cameras memory probe strIp strUserName strPwd = some r ∧
        Picked (mediaAddrs cameras probe strIp (cString strUserName) (cString strPwd)) r) ↔
      Settled cameras probe strIp (cString strUserName) (cString strPwd) := by
  have haddrs : ∀ m ∈ mediaAddrs cameras probe strIp (cString strUserName) (cString strPwd), WellFormed m := by
    intro m hm
    obtain ⟨i, x, hx, -, hxm⟩ := mem_mediaAddrs hm
    exact hmedia i x hx m hxm
  have hip : mediaAddrs cameras probe strIp (cString strUserName) (cString strPwd) ≠ [] → '/' ∉ strIp := by
    intro hne
    obtain ⟨m, hm⟩ := List.exists_mem_of_ne_nil _ hne
    obtain ⟨i, x, -, hhost, -⟩ := mem_mediaAddrs hm
    exact slash_not_mem_of_hostOf hhost
  unfold Settled
  generalize mediaAddrs cameras probe strIp (cString strUserName) (cString strPwd) = addrs at haddrs hip ⊢
  have hloop := @forall_lastFound_iff _ (strIp <:+: ·) InBuf (Picked addrs) _ ⟨_, AddressBuf.zero.size⟩
    (fun t ht hfound => exists_stray haddrs hip ht hfound) (shown cameras probe (cString strUserName) (cString strPwd)) []
  rw [picked_nil_iff haddrs, sureFind_congr fun t ht => picked_iff_of_inBuf (shown_inBuf ht)] at hloop
  refine Iff.trans ?_ hloop
  constructor
  · intro h xs hxs
    obtain ⟨memory, rfl⟩ := exists_memory hxs
    obtain ⟨r, hr, hpicked⟩ := h memory
    rw [GetMediaAddr_eq _ _ _ _ _ _ hmax] at hr
    cases hr
    exact hpicked
  · intro h memory
    exact ⟨_, GetMediaAddr_eq _ _ _ _ _ _ hmax, h _ (texts_shows memory _)⟩

/-- Cameras that all answer, and say that their media are at the host of their address. -/
def answering : Nat → Camera := fun _ DeviceXAddr _ _ =>
  ⟨true, 0, some ((hostOf DeviceXAddr).map fun host =>
    ⟨some ⟨some ("http://".toList ++ host ++ "/onvif/media".toList)⟩, none⟩)⟩

/-- A reply of one camera after the other. -/
def probeOf (hosts : List (List Char)) : Probe :=
  ⟨true, true, hosts.map fun host => ⟨false, some [⟨some ("http://".toList ++ host ++ "/onvif/device".toList)⟩]⟩⟩

theorem mediaOf_answering {i : Nat} {host x : List Char} (hhost : hostOf x = some host) :
    mediaOf (answering i) (cString []) (cString []) x = some ("http://".toList ++ host ++ "/onvif/media".toList) := by
  have hcall : (answering i x (cString []) (cString [])).soap ∧ (answering i x (cString []) (cString [])).auth = 0 :=
    ⟨rfl, rfl⟩
  rw [mediaOf, if_pos hcall, answering, hhost]
  rfl

/-- Three cameras reply, the one with the longer address first. -/
def threeCameras : Probe := probeOf ["10.0.78.201".toList, "10.0.78.20".toList, "10.0.78.9".toList]

theorem threeCameras_wellFormed (i : Nat) (x : List Char)
    (hx : ((found threeCameras)[i]?).bind ProbeMatchType.XAddrs = some x) (m : List Char)
    (hm : mediaOf (answering i) (cString []) (cString []) x = some m) : WellFormed m := by
  have hhosts : ∀ y ∈ found threeCameras, ∀ x, y.XAddrs = some x → ∃ host, hostOf x = some host ∧
      WellFormed ("http://".toList ++ host ++ "/onvif/media".toList) := by
    simp only [threeCameras, probeOf, found, List.map_cons, List.map_nil]
    intro y hy x hyx
    rcases List.mem_cons.mp hy with rfl | hy
    · cases hyx
      exact ⟨"10.0.78.201".toList, by decide, by unfold NulFree; decide, "10.0.78.201".toList, by decide, by decide⟩
    rcases List.mem_cons.mp hy with rfl | hy
    · cases hyx
      exact ⟨"10.0.78.20".toList, by decide, by unfold NulFree; decide, "10.0.78.20".toList, by decide, by decide⟩
    · obtain rfl := List.mem_singleton.mp hy
      cases hyx
      exact ⟨"10.0.78.9".toList, by decide, by unfold NulFree; decide, "10.0.78.9".toList, by decide, by decide⟩
  obtain ⟨y, hy, hyx⟩ := Option.bind_eq_some_iff.mp hx
  obtain ⟨host, hhost, hmedia⟩ := hhosts y (List.mem_of_getElem? hy) x hyx
  rw [mediaOf_answering hhost] at hm
  exact Option.some.inj hm ▸ hmedia

/-- The camera that is wanted replies after it, and is picked. -/
theorem GetMediaAddr_picked_three :
    mediaAddrs answering threeCameras "10.0.78.20".toList [] [] = ["http://10.0.78.20/onvif/media".toList] ∧
      ∀ memory, ∃ r, GetMediaAddr answering memory threeCameras "10.0.78.20".toList [] [] = some r ∧
        Picked (mediaAddrs answering threeCameras "10.0.78.20".toList [] []) r := by
  have haddrs : mediaAddrs answering threeCameras "10.0.78.20".toList [] [] = ["http://10.0.78.20/onvif/media".toList] := by
    decide
  refine ⟨haddrs, (GetMediaAddr_picked_iff answering threeCameras "10.0.78.20".toList [] [] (by decide)
    threeCameras_wellFormed).mpr (.inl ?_)⟩
  have hslots : shown answering threeCameras (cString []) (cString []) =
      [some (AddressBuf.zero.put "http://10.0.78.201/onvif/media".toList).chars,
        some (AddressBuf.zero.put "http://10.0.78.20/onvif/media".toList).chars,
        some (AddressBuf.zero.put "http://10.0.78.9/onvif/media".toList).chars] := rfl
  refine ⟨[_], _, [_], hslots, ⟨"http://".toList, _, rfl⟩, ?_, ?_⟩
  · rw [show mediaAddrs answering threeCameras "10.0.78.20".toList (cString []) (cString []) = _ from haddrs]
    decide
  · intro s hs
    rw [List.mem_singleton.mp hs, quiet_some_iff]
    decide +kernel

/-- The camera with the longer address is shown if it replies later. -/
theorem GetMediaAddr_not_picked :
    mediaAddrs answering (probeOf ["10.0.78.20".toList, "10.0.78.201".toList]) "10.0.78.20".toList [] [] =
        ["http://10.0.78.20/onvif/media".toList] ∧
      ∀ memory, ∃ r, GetMediaAddr answering memory (probeOf ["10.0.78.20".toList, "10.0.78.201".toList])
          "10.0.78.20".toList [] [] = some r ∧
        cString r = "http://10.0.78.201/onvif/media".toList ∧
        ¬ Picked (mediaAddrs answering (probeOf ["10.0.78.20".toList, "10.0.78.201".toList]) "10.0.78.20".toList [] []) r := by
  have haddrs : mediaAddrs answering (probeOf ["10.0.78.20".toList, "10.0.78.201".toList]) "10.0.78.20".toList [] [] =
      ["http://10.0.78.20/onvif/media".toList] := by decide
  have hslots : shown answering (probeOf ["10.0.78.20".toList, "10.0.78.201".toList]) (cString []) (cString []) =
      [some (AddressBuf.zero.put "http://10.0.78.20/onvif/media".toList).chars,
        some (AddressBuf.zero.put "http://10.0.78.201/onvif/media".toList).chars] := rfl
  have hfound : "10.0.78.20".toList <:+: (AddressBuf.zero.put "http://10.0.78.201/onvif/media".toList).chars :=
    ⟨"http://".toList, _, rfl⟩
  have htext : cString (AddressBuf.zero.put "http://10.0.78.201/onvif/media".toList).chars =
      "http://10.0.78.201/onvif/media".toList := by decide
  refine ⟨haddrs, fun memory => ⟨_, GetMediaAddr_eq _ memory _ _ _ _ (by decide), ?_⟩⟩
  have hlast : lastFound ("10.0.78.20".toList <:+: ·) []
      (texts memory (shown answering (probeOf ["10.0.78.20".toList, "10.0.78.201".toList]) (cString []) (cString []))) =
      (AddressBuf.zero.put "http://10.0.78.201/onvif/media".toList).chars := by
    rw [hslots]
    exact lastFound_concat hfound [] [(AddressBuf.zero.put "http://10.0.78.20/onvif/media".toList).chars]
  rw [hlast, haddrs, picked_iff_of_inBuf (AddressBuf.size _), htext]
  exact ⟨rfl, by decide⟩

end Perception.Onvif
