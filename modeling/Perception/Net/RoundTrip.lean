import Perception.Net.Deframer

/-!
# Packing, unpacking and the unescaped length

A package is one frame of the deframing automaton exactly when its four length bytes
do not contain the tail flag. Otherwise the frame ends inside the length bytes, and
whatever is recognised after that is shorter than what was packed.
-/
namespace Perception.Net

set_option autoImplicit false

open Perception.Lib

namespace NetTcpDataPkg

/-- The length that the packer writes, the frame's own. -/
def frameLength (d : NetTcpDataPkg) (nSendType : Int) (cmd : UInt16) (input : List UInt8) : Nat :=
  s32HeardOffSet + (stuff (d.pkgContent nSendType cmd input)).length + nTailFlagLen

/-- The bytes that the packer writes. -/
def frame (d : NetTcpDataPkg) (nSendType : Int) (cmd : UInt16) (input : List UInt8) : List UInt8 :=
  cHeadFlag :: dwordBytes (d.frameLength nSendType cmd input) ++
    stuff (d.pkgContent nSendType cmd input) ++ [cTailFlag]

variable (d : NetTcpDataPkg) (nSendType : Int) (cmd : UInt16) (input : List UInt8)

theorem fields_length (h : SPkgHead) : h.fields.length = 6 := rfl

theorem pkgContent_length : (d.pkgContent nSendType cmd input).length = 8 + input.length := by
  simp only [pkgContent, List.length_append, fields_length, wordBytes, List.length_cons,
    List.length_nil]
  omega

theorem frame_length :
    (d.frame nSendType cmd input).length = d.frameLength nSendType cmd input := by
  simp only [frame, frameLength, dwordBytes, List.length_append, List.length_cons, List.length_nil,
    s32HeardOffSet, nHeadFlagLen, nIntLen, nTailFlagLen]

theorem alloc_le_frameLength :
    nPkgHeadLen + input.length + nPkgTailLen ≤ d.frameLength nSendType cmd input := by
  have hstuff : (stuff (d.pkgContent nSendType cmd input)).length = _ :=
    Stuffing.stuff_length 0x34 needsConvt (~~~ ·) (d.pkgContent nSendType cmd input)
  have hlen := d.pkgContent_length nSendType cmd input
  simp only [frameLength, s32HeardOffSet, nHeadFlagLen, nIntLen, nTailFlagLen, nPkgHeadLen, nPkgTailLen]
  omega

/-- When the output is large enough for the frame, the packer writes the frame. -/
theorem PkgProtocolData_eq {outsize : Nat} (h : d.frameLength nSendType cmd input ≤ outsize) :
    d.PkgProtocolData nSendType cmd input outsize = some (d.frame nSendType cmd input) := by
  have hle := d.alloc_le_frameLength nSendType cmd input
  have hfit : ¬ outsize < nPkgHeadLen + input.length + nPkgTailLen := by omega
  simp only [PkgProtocolData, ConvtCode_eq_stuff, if_neg hfit]
  rfl

/-- Whatever the packer writes is the frame. -/
theorem eq_frame {outsize : Nat} {f : List UInt8}
    (h : d.PkgProtocolData nSendType cmd input outsize = some f) : f = d.frame nSendType cmd input := by
  simp only [PkgProtocolData, ConvtCode_eq_stuff, Option.ite_none_left_eq_some, Option.some.injEq] at h
  exact h.2.symm

theorem pkgContent_crcValid : CrcValid (d.pkgContent nSendType cmd input) := by
  have hlen := d.pkgContent_length nSendType cmd input
  refine ⟨by omega, ?_⟩
  have hw : ∀ (xs : List UInt8) (w : UInt16), CalcCRC1021 xs = w →
      CalcCRC1021 ((xs ++ wordBytes w).take ((xs ++ wordBytes w).length - 2)) =
        wordOf ((xs ++ wordBytes w).getD ((xs ++ wordBytes w).length - 2) 0)
          ((xs ++ wordBytes w).getD ((xs ++ wordBytes w).length - 1) 0) := by
    intro xs w hcrc
    have h2 : (xs ++ wordBytes w).length = xs.length + 2 := by simp [wordBytes]
    have hhi : (xs ++ wordBytes w).getD xs.length 0 = (wordBytes w).getD 0 0 := by
      simp [List.getElem?_append_right]
    have hlo : (xs ++ wordBytes w).getD (xs.length + 1) 0 = (wordBytes w).getD 1 0 := by
      simp [List.getElem?_append_right]
    rw [h2, Nat.add_sub_cancel, List.take_left, hcrc, show xs.length + 2 - 1 = xs.length + 1 by omega,
      hhi, hlo, wordOf_wordBytes]
  exact hw _ _ rfl

theorem pkgContent_version :
    contentVersion (d.pkgContent nSendType cmd input) = d.m_u8Version := by
  show (d.MakePkgHead nSendType cmd).version = d.m_u8Version
  unfold MakePkgHead
  split
  · rfl
  · split <;> rfl

theorem pkgContent_cmd : contentCmd (d.pkgContent nSendType cmd input) = cmd.toUInt8 := by
  show (d.MakePkgHead nSendType cmd).cmd = cmd.toUInt8
  unfold MakePkgHead
  split
  · rfl
  · split <;> rfl

theorem pkgContent_body : contentBody (d.pkgContent nSendType cmd input) = input := by
  have hlen := d.pkgContent_length nSendType cmd input
  have hdrop : (d.pkgContent nSendType cmd input).drop 6 = input ++ _ := rfl
  rw [contentBody, hlen, hdrop, Nat.add_sub_cancel_left, List.take_left]

/-- The result byte that the packer puts into the head. -/
def resultOf (nSendType : Int) : UInt8 := if nSendType = MSG_RSP then 0x01 else 0x00

theorem pkgContent_result :
    contentResult (d.pkgContent nSendType cmd input) = resultOf nSendType := by
  show (d.MakePkgHead nSendType cmd).result = resultOf nSendType
  unfold MakePkgHead resultOf
  by_cases hreq : nSendType = MSG_REQ
  · rw [if_pos hreq, hreq]
    rfl
  · rw [if_neg hreq]
    split <;> rfl

/-- What the callback is given for a message that arrives. -/
def delivered (srv cli : String) (nSendType : Int) (cmd : UInt16) (input : List UInt8) : Callback where
  cmd := cmd.toUInt8
  result := resultOf nSendType
  body := input
  strServerFlag := srv
  strCliFlag := cli

theorem contentCallback_pkgContent (srv cli : String) :
    contentCallback srv cli (d.pkgContent nSendType cmd input) = delivered srv cli nSendType cmd input := by
  rw [contentCallback, pkgContent_cmd, pkgContent_result, pkgContent_body]
  rfl

/-- The tail flag is not among the length bytes of the frame. -/
def LengthClean : Prop := cTailFlag ∉ dwordBytes (d.frameLength nSendType cmd input)

instance : Decidable (d.LengthClean nSendType cmd input) := inferInstanceAs (Decidable (_ ∉ _))

theorem frame_isFrame {d : NetTcpDataPkg} {nSendType : Int} {cmd : UInt16} {input : List UInt8}
    (h : d.LengthClean nSendType cmd input) : IsFrame (d.frame nSendType cmd input) := by
  refine ⟨dwordBytes (d.frameLength nSendType cmd input) ++ stuff (d.pkgContent nSendType cmd input),
    by simp [frame], ?_⟩
  intro hm
  rcases List.mem_append.mp hm with hm | hm
  · exact h hm
  · exact tail_not_mem_stuff _ hm

theorem scan_frame {d : NetTcpDataPkg} {nSendType : Int} {cmd : UInt16} {input : List UInt8}
    (h : d.LengthClean nSendType cmd input) :
    scan none (d.frame nSendType cmd input) = ([d.frame nSendType cmd input], none) := by
  have hf : ∀ f ∈ [d.frame nSendType cmd input], IsFrame f := by
    intro f hm
    rw [List.mem_singleton.mp hm]
    exact frame_isFrame h
  have hs := Framing.scan_frames cHeadFlag cTailFlag hf
  rwa [List.flatten_singleton] at hs

theorem frameContent_frame : frameContent (d.frame nSendType cmd input) = d.pkgContent nSendType cmd input := by
  have hdrop : (d.frame nSendType cmd input).drop s32HeardOffSet =
      stuff (d.pkgContent nSendType cmd input) ++ [cTailFlag] := rfl
  rw [frameContent, hdrop, List.dropLast_concat]
  exact Stuffing.unstuff_stuff 0x34 needsConvt (~~~ ·) convt_code cTailFlag _

theorem frame_nobody_le : nPkgNobodyLen ≤ (d.frame nSendType cmd input).length := by
  have h := d.alloc_le_frameLength nSendType cmd input
  rw [frame_length]
  simp only [nPkgNobodyLen]
  omega

theorem frame_content_le (h : d.frameLength nSendType cmd input ≤ nMaxPkgLen) :
    (frameContent (d.frame nSendType cmd input)).length ≤ nMaxPkgLen := by
  have hle := frameContent_length_le (d.frame nSendType cmd input)
  rw [frame_length] at hle
  omega

theorem frame_dispatched_iff (h : d.frameLength nSendType cmd input ≤ nMaxPkgLen) :
    Dispatched (d.frame nSendType cmd input) ↔ d.m_u8Version ≤ CURRENT_PROTOCOL_VERSION := by
  have hacc : Accepted (d.pkgContent nSendType cmd input) ↔ d.m_u8Version ≤ CURRENT_PROTOCOL_VERSION := by
    rw [Accepted, pkgContent_version]
    exact and_iff_right (d.pkgContent_crcValid nSendType cmd input)
  rw [← hacc, ← d.frameContent_frame nSendType cmd input]
  exact ⟨fun hd => hd.2.2, fun ha => ⟨d.frame_nobody_le nSendType cmd input,
    d.frame_content_le nSendType cmd input h, ha⟩⟩

/-- A later piece of a package: its content lies in the stuffed text, at least two bytes
behind its start. -/
theorem frameContent_behind {p a f b s : List UInt8} {t : UInt8} (hp : p.length ≤ 3)
    (h : p ++ s ++ [t] = a ++ f ++ b) :
    ∃ n m, 2 ≤ n ∧ frameContent f = unstuff cTailFlag ((s.drop n).take m) := by
  refine ⟨a.length + 5 - p.length, f.length - 6, by omega, ?_⟩
  have hlen := congrArg List.length h
  simp only [List.length_append, List.length_cons, List.length_nil] at hlen
  have hf : (f.drop 5).dropLast = (((p ++ s ++ [t]).drop (a.length + 5)).take (f.length - 6)) := by
    rw [h, List.append_assoc, List.drop_append, List.dropLast_eq_take, List.length_drop]
    have ha : a.drop (a.length + 5) = [] := List.drop_eq_nil_of_le (by omega)
    rw [ha, List.nil_append, Nat.add_sub_cancel_left, List.drop_append, List.take_append_of_le_length]
    · rfl
    · rw [List.length_drop]
      omega
  have hs : ((p ++ s ++ [t]).drop (a.length + 5)).take (f.length - 6) =
      (s.drop (a.length + 5 - p.length)).take (f.length - 6) := by
    have hp' : p.drop (a.length + 5) = [] := List.drop_eq_nil_of_le (by omega)
    rw [List.append_assoc, List.drop_append, hp', List.nil_append, List.drop_append]
    rcases Nat.lt_or_ge s.length (a.length + 5 - p.length) with hlt | hge
    · have hz : f.length - 6 = 0 := by omega
      rw [hz, List.take_zero, List.take_zero]
    · apply List.take_append_of_le_length
      rw [List.length_drop]
      omega
  rw [frameContent, ← hs, ← hf]
  rfl

theorem dwordBytes_high {n : Nat} (h : n ≤ nMaxPkgLen) :
    dwordBytes n = 0 :: [UInt8.ofNat (n / 65536), UInt8.ofNat (n / 256), UInt8.ofNat n] := by
  have hz : n / 16777216 = 0 := by
    apply Nat.div_eq_of_lt
    simp only [nMaxPkgLen] at h
    omega
  rw [dwordBytes, hz]
  rfl

/-- Without its first two bytes a region decodes to less. -/
theorem unstuff_length_behind {s : List UInt8} (hs : 0 < s.length) :
    (unstuff cTailFlag (s.drop 2)).length < (unstuff cTailFlag s).length := by
  cases s with
  | nil => cases hs
  | cons x s =>
    cases s with
    | nil => by_cases hx : x = 0x34 <;> simp [unstuff, Stuffing.unstuff, hx]
    | cons y r => exact Stuffing.unstuff_length_drop_two 0x34 (~~~ ·) cTailFlag x y r

/-- A tail flag among the length bytes: the first frame is too short to be decoded, and
the content of any other is shorter than what was packed. -/
theorem frameContent_lt_of_not_lengthClean {d : NetTcpDataPkg} {nSendType : Int} {cmd : UInt16}
    {input : List UInt8} (hmax : d.frameLength nSendType cmd input ≤ nMaxPkgLen)
    (h : ¬ d.LengthClean nSendType cmd input) {f : List UInt8}
    (hf : f ∈ (scan none (d.frame nSendType cmd input)).1) (hd : Dispatched f) :
    (frameContent f).length < 8 + input.length := by
  obtain ⟨pre, post, hlb, hpre⟩ := List.eq_append_cons_of_mem (not_not.mp h)
  rw [dwordBytes_high hmax] at hlb
  have hlen := congrArg List.length hlb
  simp only [List.length_append, List.length_cons, List.length_nil] at hlen
  have hne : pre ≠ [] := by
    rintro rfl
    exact absurd (List.cons.inj hlb).1 (by decide)
  have hpos := List.length_pos_iff.mpr hne
  have hframe : d.frame nSendType cmd input = cHeadFlag ::
      (pre ++ cTailFlag :: (post ++ stuff (d.pkgContent nSendType cmd input) ++ [cTailFlag])) := by
    rw [frame, dwordBytes_high hmax, hlb]
    simp
  rw [hframe, scan, Framing.scan_none_head, Framing.scan_some_tail _ _ hpre] at hf
  rcases List.mem_cons.mp hf with rfl | hf
  · -- the frame that ends inside the length bytes
    have h14 := hd.1
    simp only [nPkgNobodyLen, nPkgHeadLen, nPkgTailLen, List.length_append, List.length_cons,
      List.length_nil] at h14
    omega
  · obtain ⟨a, b, he⟩ := Framing.scan_frame_infix _ _ none _ hf
    obtain ⟨n, m, hn, hc⟩ := frameContent_behind (by omega) he
    have hstuffed : unstuff cTailFlag (stuff (d.pkgContent nSendType cmd input)) =
        d.pkgContent nSendType cmd input :=
      Stuffing.unstuff_stuff 0x34 needsConvt (~~~ ·) convt_code cTailFlag _
    have hpos : 0 < (stuff (d.pkgContent nSendType cmd input)).length := by
      rw [List.length_pos_iff]
      intro hnil
      have h8 := d.pkgContent_length nSendType cmd input
      rw [← hstuffed, hnil] at h8
      simp only [Stuffing.unstuff_nil, List.length_nil] at h8
      omega
    calc (frameContent f).length
        = (unstuff cTailFlag (((stuff (d.pkgContent nSendType cmd input)).drop n).take m)).length := by
          rw [hc]
      _ ≤ (unstuff cTailFlag ((stuff (d.pkgContent nSendType cmd input)).drop n)).length :=
          Stuffing.unstuff_length_take 0x34 (~~~ ·) cTailFlag cTailFlag m _
      _ = (unstuff cTailFlag
            (((stuff (d.pkgContent nSendType cmd input)).drop 2).drop (n - 2))).length := by
          rw [List.drop_drop, Nat.add_sub_cancel' hn]
      _ ≤ (unstuff cTailFlag ((stuff (d.pkgContent nSendType cmd input)).drop 2)).length :=
          Stuffing.unstuff_length_drop 0x34 (~~~ ·) cTailFlag (n - 2) _
      _ < (unstuff cTailFlag (stuff (d.pkgContent nSendType cmd input))).length := unstuff_length_behind hpos
      _ = 8 + input.length := by rw [hstuffed, pkgContent_length]

/-- What was packed arrives: one callback with the command and the body, and no byte is
left over. -/
def RoundTrips (srv cli : String) (d : NetTcpDataPkg) (nSendType : Int) (cmd : UInt16)
    (input : List UInt8) (outsize : Nat) : Prop :=
  ∃ f, d.PkgProtocolData nSendType cmd input outsize = some f ∧
    ∃ cb, callbacks ((new srv cli).UnDataPkg f).log = [cb] ∧
      cb.cmd.toNat = cmd.toNat ∧ cb.body = input ∧
      ∃ d', ((new srv cli).UnDataPkg f).val = some (true, d') ∧ d'.m_receive_buffer = []

theorem frame_isChunk (h : d.frameLength nSendType cmd input ≤ nMaxPkgLen) :
    IsChunk (d.frame nSendType cmd input) := by
  have hnb := d.frame_nobody_le nSendType cmd input
  have h14 : 0 < nPkgNobodyLen := by decide
  exact ⟨by omega, by rw [frame_length]; exact h⟩

/-- A round trip needs clean length bytes and an accepted version. -/
theorem lengthClean_of_roundTrips {srv cli : String} {d : NetTcpDataPkg} {nSendType : Int}
    {cmd : UInt16} {input : List UInt8} {outsize : Nat}
    (hle : d.frameLength nSendType cmd input ≤ nMaxPkgLen)
    (h : RoundTrips srv cli d nSendType cmd input outsize) :
    d.LengthClean nSendType cmd input ∧ d.m_u8Version ≤ CURRENT_PROTOCOL_VERSION := by
  obtain ⟨f, hf, cb, hcb, -, hbody, -⟩ := h
  obtain rfl := eq_frame d nSendType cmd input hf
  have hlog := (UnDataPkg_new srv cli (d.frame_isChunk nSendType cmd input hle)).1
  have hmem : cb ∈ frameCallbacks srv cli (scan none (d.frame nSendType cmd input)).1 := by
    rw [← hlog, hcb]
    exact List.mem_singleton_self cb
  obtain ⟨g, hg, hdisp, rfl⟩ := mem_frameCallbacks.mp hmem
  have hclean : d.LengthClean nSendType cmd input := by
    by_contra hdirty
    have hlt := frameContent_lt_of_not_lengthClean hle hdirty hg hdisp
    have hlen := congrArg List.length hbody
    simp only [contentCallback, contentBody, List.length_take, List.length_drop] at hlen
    have h8 := hdisp.2.2.1.1
    omega
  rw [scan_frame hclean] at hg
  obtain rfl := List.mem_singleton.mp hg
  exact ⟨hclean, (d.frame_dispatched_iff nSendType cmd input hle).mp hdisp⟩

/-- **The round trip holds exactly for the frames whose length bytes are free of the
tail flag, packed under a version that is accepted.** -/
theorem roundTrips_iff (srv cli : String) (d : NetTcpDataPkg) (nSendType : Int) (cmd : UInt16)
    (hcmd : cmd.toNat < 256) (input : List UInt8) (outsize : Nat)
    (hfit : d.frameLength nSendType cmd input ≤ outsize) (hmax : outsize ≤ nMaxPkgLen) :
    RoundTrips srv cli d nSendType cmd input outsize ↔
      d.LengthClean nSendType cmd input ∧ d.m_u8Version ≤ CURRENT_PROTOCOL_VERSION := by
  have hle : d.frameLength nSendType cmd input ≤ nMaxPkgLen := hfit.trans hmax
  refine ⟨lengthClean_of_roundTrips hle, ?_⟩
  rintro ⟨hclean, hver⟩
  obtain ⟨hlog, d', hval, hbuf⟩ := UnDataPkg_new srv cli (d.frame_isChunk nSendType cmd input hle)
  refine ⟨_, PkgProtocolData_eq d nSendType cmd input hfit, delivered srv cli nSendType cmd input,
    ?_, ?_, rfl, d', hval, ?_⟩
  · have hdisp := (d.frame_dispatched_iff nSendType cmd input hle).mpr hver
    rw [hlog, scan_frame hclean, frameCallbacks_cons, if_pos hdisp, frameContent_frame,
      contentCallback_pkgContent]
    rfl
  · show cmd.toUInt8.toNat = cmd.toNat
    rw [UInt16.toNat_toUInt8]
    omega
  · rw [hbuf, scan_frame hclean]
    rfl

/-- A body of every byte that is escaped arrives. -/
theorem roundTrips_escaped :
    RoundTrips "6000" "10.0.0.2:5000" (new "6000" "10.0.0.3:7000") MSG_REQ 0x11 [0x7D, 0x0B, 0x34]
      nMaxPkgLen :=
  (roundTrips_iff _ _ _ _ _ (by decide) _ _ (by decide +kernel) le_rfl).mpr (by decide +kernel)

/-- A body of 253 zero bytes makes a frame of length 0x10B: it does not arrive. -/
theorem not_roundTrips_267 :
    (new "6000" "10.0.0.3:7000").frameLength MSG_REQ 0x11 (List.replicate 253 0) = 267 ∧
      ¬ RoundTrips "6000" "10.0.0.2:5000" (new "6000" "10.0.0.3:7000") MSG_REQ 0x11
        (List.replicate 253 0) nMaxPkgLen := by
  have hlen : (new "6000" "10.0.0.3:7000").frameLength MSG_REQ 0x11 (List.replicate 253 0) = 267 := by
    decide +kernel
  refine ⟨hlen, fun h => ?_⟩
  have hclean := (lengthClean_of_roundTrips (by rw [hlen]; decide) h).1
  rw [LengthClean, hlen] at hclean
  exact hclean (by decide)

end NetTcpDataPkg

end Perception.Net
