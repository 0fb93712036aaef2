import Perception.Onvif.Discovery

/-!
# The array of addresses

The count is advanced by all matches of a reply before they are written, each to the slot of the
last. The array has the addresses of all matches only where no match but the last of a reply
has one.
-/
namespace Perception.Onvif

set_option autoImplicit false

/-- Nothing is written behind the array, and its first entries are the addresses of the matches
in their order. -/
def Collected (probe : Probe) : Prop :=
  ∃ DeviceXAddr count, ONVIF_DetectDevice (List.replicate MAX_DETECT_IPC none) probe = some (DeviceXAddr, count) ∧
    DeviceXAddr.length = MAX_DETECT_IPC ∧ count ≤ MAX_DETECT_IPC ∧
      DeviceXAddr.take count = (found probe).map ProbeMatchType.XAddrs

theorem recvMatches_eq_none {s : List (Option (List Char)) × Nat} {rep : Reply} (hne : rep.matches ≠ [])
    (h : s.1.length < s.2 + rep.matches.length) : recvMatches s rep = none := by
  rw [recvMatches_eq]
  cases hms : rep.matches with
  | nil => exact absurd hms hne
  | cons m ms =>
    have hlen : ¬s.2 + (m :: ms).length - 1 < s.1.length := by
      rw [hms, List.length_cons] at h
      rw [List.length_cons]
      omega
    rw [List.foldlM_cons, putMatch, if_neg hlen]
    rfl

theorem recvMatches_some {s s' : List (Option (List Char)) × Nat} {rep : Reply} (h : recvMatches s rep = some s') :
    s'.1.length = s.1.length ∧ s'.2 = s.2 + rep.matches.length := by
  have hput (ms : List ProbeMatchType) (count : Nat) (a a' : List (Option (List Char)))
      (hfold : ms.foldlM (putMatch count) a = some a') : a'.length = a.length := by
    induction ms generalizing a with
    | nil =>
      cases hfold
      rfl
    | cons m ms ih =>
      rw [List.foldlM_cons, Option.bind_eq_bind, Option.bind_eq_some_iff] at hfold
      obtain ⟨a₁, ha₁, hfold⟩ := hfold
      unfold putMatch at ha₁
      split at ha₁
      · cases ha₁
        rw [ih _ hfold, List.length_set]
      · cases ha₁
  rw [recvMatches_eq] at h
  obtain ⟨a', hfold, rfl⟩ := Option.map_eq_some_iff.mp h
  exact ⟨hput _ _ _ _ hfold, rfl⟩

/-- The reply that does not fit any more has a match. -/
theorem foldlM_recvMatches_eq_none {s : List (Option (List Char)) × Nat} {replies : List Reply} (hs : s.2 ≤ s.1.length)
    (h : s.1.length < s.2 + (replies.flatMap Reply.matches).length) : replies.foldlM recvMatches s = none := by
  induction replies generalizing s with
  | nil =>
    rw [List.flatMap_nil, List.length_nil] at h
    omega
  | cons rep replies ih =>
    rw [List.flatMap_cons, List.length_append] at h
    rw [List.foldlM_cons]
    cases hrecv : recvMatches s rep with
    | none => rfl
    | some s' =>
      obtain ⟨hlen, hcount⟩ := recvMatches_some hrecv
      have hfits : s'.2 ≤ s'.1.length := by
        by_contra hgt
        rw [hcount, hlen] at hgt
        have hne : rep.matches ≠ [] := by
          intro hnil
          rw [hnil, List.length_nil] at hgt
          omega
        rw [recvMatches_eq_none hne (by omega)] at hrecv
        cases hrecv
      exact ih hfits (by omega)

theorem ONVIF_DetectDevice_eq_none {probe : Probe} (h : MAX_DETECT_IPC < (found probe).length) :
    ONVIF_DetectDevice (List.replicate MAX_DETECT_IPC none) probe = none := by
  unfold found Probe.received at h
  unfold ONVIF_DetectDevice
  cases hsent : (probe.soap && probe.sent) with
  | true =>
    rw [hsent] at h
    apply foldlM_recvMatches_eq_none
    · exact Nat.zero_le _
    · rw [List.length_replicate, Nat.zero_add]
      exact h
  | false =>
    rw [hsent] at h
    exact absurd h (Nat.not_lt_zero _)

theorem flatMap_eq_iff {α β : Type} {f g : α → List β} (h : ∀ x, (f x).length = (g x).length) (xs : List α) :
    xs.flatMap f = xs.flatMap g ↔ ∀ x ∈ xs, f x = g x := by
  induction xs with
  | nil => exact iff_of_true rfl nofun
  | cons x xs ih =>
    rw [List.flatMap_cons, List.flatMap_cons, List.forall_mem_cons, ← ih]
    constructor
    · intro heq
      exact List.append_inj heq (h x)
    · intro heq
      rw [heq.1, heq.2]

/-- The slots of a reply are its addresses when only the last match has one. -/
theorem kept_eq_iff (ms : List ProbeMatchType) :
    kept ms = ms.map ProbeMatchType.XAddrs ↔ ∀ m ∈ ms.dropLast, m.XAddrs = none := by
  rcases List.eq_nil_or_concat ms with rfl | ⟨ms, m, rfl⟩
  · exact iff_of_true rfl nofun
  · rw [List.concat_eq_append, kept_concat, List.dropLast_concat, List.map_append, List.map_singleton]
    have hlen : (List.replicate ms.length (none : Option (List Char))).length = (ms.map ProbeMatchType.XAddrs).length := by
      rw [List.length_replicate, List.length_map]
    constructor
    · intro heq m hm
      have hnone := (List.append_inj heq hlen).1
      exact List.eq_of_mem_replicate (hnone ▸ List.mem_map_of_mem hm)
    · intro hnone
      have hrep : ms.map ProbeMatchType.XAddrs = List.replicate ms.length none := by
        refine List.eq_replicate_iff.mpr ⟨List.length_map _, fun x hx => ?_⟩
        obtain ⟨m, hm, rfl⟩ := List.mem_map.mp hx
        exact hnone m hm
      rw [hrep]

theorem heard_eq_iff (probe : Probe) :
    heard probe = (found probe).map ProbeMatchType.XAddrs ↔
      ∀ rep ∈ probe.received, ∀ m ∈ rep.matches.dropLast, m.XAddrs = none := by
  have hlen (rep : Reply) : (kept rep.matches).length = (rep.matches.map ProbeMatchType.XAddrs).length := by
    rw [length_kept, List.length_map]
  rw [heard, found, List.map_flatMap, flatMap_eq_iff hlen]
  exact forall₂_congr fun rep _ => kept_eq_iff rep.matches

theorem length_heard (probe : Probe) : (heard probe).length = (found probe).length := by
  rw [heard, found, List.length_flatMap, List.length_flatMap]
  simp only [length_kept]

/-- **Detection.** The matches are collected exactly when there is room for them all and none is
overwritten: only the last match of a reply has an address. -/
theorem collected_iff (probe : Probe) :
    Collected probe ↔ (found probe).length ≤ MAX_DETECT_IPC ∧
      ∀ rep ∈ probe.received, ∀ m ∈ rep.matches.dropLast, m.XAddrs = none := by
  by_cases hroom : (found probe).length ≤ MAX_DETECT_IPC
  · have hrun := ONVIF_DetectDevice_eq hroom
    have hlen := length_heard probe
    rw [← heard_eq_iff]
    constructor
    · intro hcollected
      obtain ⟨DeviceXAddr, count, hdetect, -, -, htake⟩ := hcollected
      rw [hrun] at hdetect
      obtain ⟨rfl, rfl⟩ := Prod.mk.inj (Option.some.inj hdetect)
      rw [List.take_left] at htake
      exact ⟨hroom, htake⟩
    · intro hkept
      have heard := hkept.2
      refine ⟨_, _, hrun, ?_, ?_, ?_⟩
      · rw [List.length_append, List.length_replicate, hlen]
        exact Nat.add_sub_cancel' hroom
      · rw [hlen]
        exact hroom
      · rw [List.take_left, heard]
  · refine iff_of_false ?_ fun h => hroom h.1
    intro hcollected
    obtain ⟨DeviceXAddr, count, hdetect, -⟩ := hcollected
    rw [ONVIF_DetectDevice_eq_none (Nat.lt_of_not_le hroom)] at hdetect
    cases hdetect

/-- The first of two matches in one reply is lost. -/
theorem not_collected_two : ¬∀ probe : Probe, Collected probe := by
  intro h
  obtain ⟨DeviceXAddr, count, hdetect, -, -, htake⟩ := h ⟨true, true, [⟨false, some [⟨some ['a']⟩, ⟨some ['b']⟩]⟩]⟩
  have hrun : ONVIF_DetectDevice (List.replicate MAX_DETECT_IPC none)
      ⟨true, true, [⟨false, some [⟨some ['a']⟩, ⟨some ['b']⟩]⟩]⟩ =
        some ([none, some ['b']] ++ List.replicate 198 none, 2) := by
    decide +kernel
  rw [hrun] at hdetect
  obtain ⟨rfl, rfl⟩ := Prod.mk.inj (Option.some.inj hdetect)
  exact absurd htake (by decide)

end Perception.Onvif
