import Perception.Net.Runs

/-!
# The bound of the decode buffer

`UnconvtCode` writes into an array of `nMaxPkgLen` bytes. Its reads always stay inside
the receive buffer. Its writes stay inside the array unless the frame that a chunk ends
was begun by earlier chunks and is too long, once its escape pairs are taken off.
-/
namespace Perception.Net

set_option autoImplicit false

open Perception.Lib

/-- Every decoding of a trace stays inside its buffers. -/
def UnconvtInside (log : List Event) : Prop :=
  ∀ written readInside, Event.unconvt written readInside ∈ log →
    written ≤ nMaxPkgLen ∧ readInside = true

theorem unconvtInside_append {xs ys : List Event} :
    UnconvtInside (xs ++ ys) ↔ UnconvtInside xs ∧ UnconvtInside ys := by
  constructor
  · intro h
    exact ⟨fun w r hm => h w r (List.mem_append_left ys hm),
      fun w r hm => h w r (List.mem_append_right xs hm)⟩
  · rintro ⟨hx, hy⟩ w r hm
    rcases List.mem_append.mp hm with hm | hm
    · exact hx w r hm
    · exact hy w r hm

theorem unconvtInside_frameEvents {srv cli : String} {f : List UInt8} :
    UnconvtInside (frameEvents srv cli f) ↔ FrameFits f := by
  have hd : UnconvtInside (distributeEvents srv cli f) := by
    intro w r hm
    unfold distributeEvents at hm
    split at hm <;> simp at hm
  rw [frameEvents, unconvtInside_append, and_iff_left hd, unconvtEvents, FrameFits]
  by_cases hlen : f.length < nPkgNobodyLen
  · simp [hlen, UnconvtInside]
  · simp [hlen, UnconvtInside]

/-- The length of the raw bytes without what the escape pairs take off fits. -/
def RawFits (raw : List UInt8) : Prop := raw.length ≤ nMaxPkgLen + escapePairs raw

theorem frameFits_iff_rawFits (body : List UInt8) :
    FrameFits (body ++ [cTailFlag]) ↔ RawFits (body.drop s32HeardOffSet) := by
  have hpairs : (unstuff cTailFlag (body.drop s32HeardOffSet)).length +
      escapePairs (body.drop s32HeardOffSet) = (body.drop s32HeardOffSet).length :=
    Stuffing.unstuff_length 0x34 (~~~ ·) cTailFlag (body.drop s32HeardOffSet)
  rcases Nat.lt_or_ge body.length s32HeardOffSet with hlt | hge
  · have hnil : body.drop s32HeardOffSet = [] := List.drop_eq_nil_of_le (by omega)
    have hshort : (body ++ [cTailFlag]).length < nPkgNobodyLen := by
      rw [List.length_append, List.length_singleton]
      simp only [nPkgNobodyLen, nPkgHeadLen, nPkgTailLen, s32HeardOffSet, nHeadFlagLen, nIntLen] at hlt ⊢
      omega
    rw [RawFits, hnil]
    exact ⟨fun _ => Nat.zero_le _, fun _ => Or.inl hshort⟩
  · rw [FrameFits, frameContent_concat hge, RawFits]
    constructor
    · rintro (hshort | hfit)
      · rw [List.length_append, List.length_singleton] at hshort
        rw [List.length_drop]
        simp only [nPkgNobodyLen, nPkgHeadLen, nPkgTailLen, nMaxPkgLen] at hshort ⊢
        omega
      · omega
    · intro hfit
      exact Or.inr (by omega)

namespace NetTcpDataPkg

/-- Handling frames decodes inside the bounds exactly when they all fit: the first that
does not fit is decoded before the computation stops. -/
theorem unconvtInside_receiveFrames {d : NetTcpDataPkg} {fs : List (List UInt8)} :
    UnconvtInside (d.receiveFrames fs).log ↔ ∀ f ∈ fs, FrameFits f := by
  constructor
  · intro h
    induction fs generalizing d with
    | nil => simp
    | cons f fs ih =>
      rw [receiveFrames_cons] at h
      by_cases hf : FrameFits f
      · have hval : (d.receiveFrame f).val = some (d.received f) := if_pos hf
        rw [Traced.bind_of_some hval] at h
        exact List.forall_mem_cons.mpr ⟨hf, ih (unconvtInside_append.mp h).2⟩
      · have hval : (d.receiveFrame f).val = none := if_neg hf
        rw [Traced.bind_of_none hval] at h
        exact absurd (unconvtInside_frameEvents.mp h) hf
  · intro hfit w r hm
    obtain ⟨f, hf, he⟩ := mem_log_receiveFrames hm
    exact unconvtInside_frameEvents.mpr (hfit f hf) w r he

/-- The frame that the chunk ends was not begun by earlier chunks, or its raw bytes
behind the length field fit. -/
def FirstFrameFits (d : NetTcpDataPkg) (chunk : List UInt8) : Prop :=
  d.m_bHaveHead = true → ∀ body rest, chunk = body ++ cTailFlag :: rest → cTailFlag ∉ body →
    RawFits (((if nMaxRecCache < d.m_receive_buffer.length then [] else d.m_receive_buffer) ++
      body).drop s32HeardOffSet)

/-- A buffer and a chunk that fit together cannot make a frame that is too long. -/
theorem firstFrameFits_of_length {d : NetTcpDataPkg} {c : List UInt8}
    (h : d.m_receive_buffer.length + c.length ≤ nMaxPkgLen) : d.FirstFrameFits c := by
  rintro - body rest rfl -
  have hle : (if nMaxRecCache < d.m_receive_buffer.length then [] else d.m_receive_buffer).length ≤
      d.m_receive_buffer.length := by
    split
    · exact Nat.zero_le _
    · exact le_rfl
  rw [List.length_append, List.length_cons] at h
  rw [RawFits, List.length_drop, List.length_append]
  omega

theorem clip_pending (d : NetTcpDataPkg) :
    d.clip.pending = if d.m_bHaveHead then
      some (if nMaxRecCache < d.m_receive_buffer.length then [] else d.m_receive_buffer) else none := by
  unfold clip
  split <;> rfl

/-- **One call decodes inside its buffers exactly when the first frame fits.** -/
theorem unconvtInside_receive {d : NetTcpDataPkg} (hd : d.Settled) {c : List UInt8} (hc : IsChunk c) :
    UnconvtInside (d.receive c).log ↔ d.FirstFrameFits c := by
  have hlog : (d.receive c).log = (d.clip.receiveFrames (scan d.clip.pending c).1).log := by
    rw [receive_eq hd hc]
    rfl
  rw [hlog, unconvtInside_receiveFrames, clip_pending, FirstFrameFits]
  cases hh : d.m_bHaveHead with
  | false =>
    simp only [Bool.false_eq_true, if_false, false_imp_iff, iff_true]
    exact scan_none_fits hc.le
  | true =>
    simp only [if_true, true_imp_iff]
    generalize (if nMaxRecCache < d.m_receive_buffer.length then [] else d.m_receive_buffer) = b
    constructor
    · rintro hfit body rest rfl hbody
      rw [scan, Framing.scan_some_tail _ _ hbody] at hfit
      exact (frameFits_iff_rawFits _).mp (hfit _ List.mem_cons_self)
    · intro hraw
      by_cases ht : cTailFlag ∈ c
      · obtain ⟨body, rest, rfl, hbody⟩ := List.eq_append_cons_of_mem ht
        rw [scan, Framing.scan_some_tail _ _ hbody, List.forall_mem_cons]
        refine ⟨(frameFits_iff_rawFits _).mpr (hraw body rest rfl hbody), scan_none_fits ?_⟩
        have hle := hc.le
        rw [List.length_append, List.length_cons] at hle
        omega
      · rw [scan, Framing.scan_some_of_not_mem _ _ ht]
        simp

/-- **A run decodes inside its buffers exactly when the first frame fits at every call.** -/
theorem unconvtInside_receiveAll (srv cli : String) (cs : List (List UInt8))
    (hcs : ∀ c ∈ cs, IsChunk c) :
    UnconvtInside ((new srv cli).receiveAll cs).log ↔ AtEachCall FirstFrameFits (new srv cli) cs := by
  have hd := settled_new srv cli
  generalize new srv cli = d at hd ⊢
  induction cs generalizing d with
  | nil => exact ⟨fun _ => Traced.atEachStep_nil d, fun _ w r hm => by cases hm⟩
  | cons c cs ih =>
    obtain ⟨hc, hcs⟩ := List.forall_mem_cons.mp hcs
    have hnow := unconvtInside_receive hd hc
    rw [receiveAll_cons, AtEachCall, Traced.atEachStep_cons, ← hnow]
    cases hval : (d.receive c).val with
    | none =>
      rw [Traced.bind_of_none hval]
      exact ⟨fun h => ⟨h, fun d' hd' => by cases hd'⟩, fun h => h.1⟩
    | some d' =>
      have hrest := ih hcs d' (settled_receive hd hc hval)
      have hone : AtEachCall FirstFrameFits d' cs ↔
          ∀ t, some d' = some t → AtEachCall FirstFrameFits t cs :=
        ⟨fun h t ht => Option.some.inj ht ▸ h, fun h => h d' rfl⟩
      rw [Traced.bind_of_some hval, unconvtInside_append]
      exact and_congr_right fun _ => hrest.trans hone

/-- In a run within one package length no frame can be too long. The body of this one has two escape
pairs, and the last chunk ends it. -/
theorem unconvtInside_short_run :
    Event.unconvt 10 true ∈ ((new "6000" "10.0.0.2:5000").receiveAll
        [[0x7D, 0, 0, 0, 0x12, 4, 0, 0, 0x11], [0, 0, 0x34, 0xCB], [0x34, 0x82, 0xC7, 0x0D, 0x0B]]).log ∧
      UnconvtInside ((new "6000" "10.0.0.2:5000").receiveAll
        [[0x7D, 0, 0, 0, 0x12, 4, 0, 0, 0x11], [0, 0, 0x34, 0xCB], [0x34, 0x82, 0xC7, 0x0D, 0x0B]]).log := by
  have hcs : ∀ c ∈ [[0x7D, 0, 0, 0, 0x12, 4, 0, 0, 0x11], [0, 0, 0x34, 0xCB], [0x34, 0x82, 0xC7, 0x0D, 0x0B]],
      IsChunk c := by
    simp only [List.forall_mem_cons]
    exact ⟨⟨by decide, by decide⟩, ⟨by decide, by decide⟩, ⟨by decide, by decide⟩, by simp⟩
  have hfits := (atEachCall_of_stream (n := nMaxPkgLen) hcs (settled_new "6000" "10.0.0.2:5000")
    (by decide)).mono fun _ _ => firstFrameFits_of_length
  exact ⟨by decide +kernel, (unconvtInside_receiveAll _ _ _ hcs).mpr hfits⟩

/-- A chunk that fills the cache with an open frame, then six more bytes and the tail. -/
theorem not_unconvtInside_long_frame :
    ¬ UnconvtInside ((new "6000" "10.0.0.2:5000").receiveAll
      [cHeadFlag :: List.replicate (nMaxPkgLen - 1) 0, [0, 0, 0, 0, 0, 0, cTailFlag]]).log := by
  have hz : ∀ b ∈ List.replicate (nMaxPkgLen - 1) (0 : UInt8), b = 0 := fun b hb =>
    List.eq_of_mem_replicate hb
  have hzlen : (List.replicate (nMaxPkgLen - 1) (0 : UInt8)).length = nMaxPkgLen - 1 :=
    List.length_replicate
  generalize List.replicate (nMaxPkgLen - 1) (0 : UInt8) = z at hz hzlen ⊢
  have hno : cTailFlag ∉ z := fun hm => absurd (hz _ hm) (by decide)
  have hlen : (cHeadFlag :: z).length = nMaxPkgLen := by
    rw [List.length_cons, hzlen]
    decide
  have hc : IsChunk [0, 0, 0, 0, 0, 0, cTailFlag] := ⟨by decide, by decide⟩
  have hd := settled_withPending (new "6000" "10.0.0.2:5000") (p := some (cHeadFlag :: z))
    (tail_not_mem_open hno)
  intro h
  rw [receiveAll_cons, receive_open_frame _ _ hlen.le hno, pure_bind, receiveAll_cons] at h
  have hcall : UnconvtInside
      (((new "6000" "10.0.0.2:5000").withPending (some (cHeadFlag :: z))).receive
        [0, 0, 0, 0, 0, 0, cTailFlag]).log := fun w r hm =>
    h w r (Traced.mem_log_bind.mpr (Or.inl hm))
  have hraw := (unconvtInside_receive hd hc).mp hcall rfl [0, 0, 0, 0, 0, 0] [] rfl (by decide)
  have hwithin : ¬ nMaxRecCache < (cHeadFlag :: z).length := by
    rw [hlen]
    decide
  rw [withPending_buffer, Option.getD_some, if_neg hwithin, RawFits] at hraw
  have hesc : (0x34 : UInt8) ∉ ((cHeadFlag :: z) ++ [0, 0, 0, 0, 0, 0]).drop s32HeardOffSet := by
    intro hm
    rcases List.mem_append.mp (List.mem_of_mem_drop hm) with hm | hm
    · rcases List.mem_cons.mp hm with he | hm
      · exact absurd he (by decide)
      · exact absurd (hz _ hm) (by decide)
    · exact absurd hm (by decide)
  rw [escapePairs, Stuffing.pairs_eq_zero 0x34 hesc, List.length_drop, List.length_append, hlen] at hraw
  exact absurd hraw (by decide)

end NetTcpDataPkg

end Perception.Net
