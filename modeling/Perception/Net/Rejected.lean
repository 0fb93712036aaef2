import Perception.Net.Deframer
import Perception.Net.RoundTrip

/-!
# What a rejected frame leaves behind

`ParsePkgData` stores the version of a frame before it looks at it. A frame that it rejects
makes no callback and leaves the sequence number, but the object packs under the rejected
version from then on, and no peer accepts what it sends.
-/
namespace Perception.Net

set_option autoImplicit false

open Perception.Lib

/-- A frame with a valid checksum and a version that is not accepted. -/
def Rejected (f : List UInt8) : Prop :=
  CrcValid (frameContent f) ∧ CURRENT_PROTOCOL_VERSION < contentVersion (frameContent f)

namespace NetTcpDataPkg

/-- No callback was made, what later sends use is unchanged, and every frame packed from now
on carries a version that is accepted. -/
def NoTrace (d : NetTcpDataPkg) (r : Traced Event NetTcpDataPkg) : Prop :=
  callbacks r.log = [] ∧ ∃ d', r.val = some d' ∧ d'.m_u8Version = d.m_u8Version ∧ d'.m_seqno = d.m_seqno ∧
    ∀ nSendType cmd input outsize f, d'.PkgProtocolData nSendType cmd input outsize = some f →
      contentVersion (frameContent f) ≤ CURRENT_PROTOCOL_VERSION

/-- Every packed frame carries the version of the object. -/
theorem version_of_packed {d : NetTcpDataPkg} {nSendType : Int} {cmd : UInt16} {input f : List UInt8} {outsize : Nat}
    (h : d.PkgProtocolData nSendType cmd input outsize = some f) : contentVersion (frameContent f) = d.m_u8Version := by
  rw [eq_frame d nSendType cmd input h, frameContent_frame, pkgContent_version]

theorem nPkgNobodyLen_le_of_rejected {f : List UInt8} (h : Rejected f) : nPkgNobodyLen ≤ f.length := by
  have hlen := h.1.1
  have hle := frameContent_length_le f
  simp only [nPkgNobodyLen, nPkgHeadLen, nPkgTailLen, s32HeardOffSet, nHeadFlagLen, nIntLen] at hle ⊢
  omega

/-- A rejected frame changes the version and nothing else that a send uses. -/
theorem received_of_rejected (d : NetTcpDataPkg) {f : List UInt8} (h : Rejected f) :
    callbacks (d.receiveFrame f).log = [] ∧ (d.received f).m_u8Version = contentVersion (frameContent f) ∧
      (d.received f).m_seqno = d.m_seqno := by
  have hlen : ¬ f.length < nPkgNobodyLen := Nat.not_lt.mpr (nPkgNobodyLen_le_of_rejected h)
  have hver : ¬ contentVersion (frameContent f) ≤ CURRENT_PROTOCOL_VERSION := UInt8.not_le.mpr h.2
  have hacc : ¬ Accepted (frameContent f) := fun hacc => hver hacc.2
  have hdisp : ¬ Dispatched f := fun hdisp => hacc hdisp.2.2
  refine ⟨?_, ?_, ?_⟩
  · rw [receiveFrame, callbacks_frameEvents, if_neg hdisp]
  · simp only [received, if_neg hlen, checked, if_pos h.1]
  · simp only [received, if_neg hlen, checked, if_neg hacc]

theorem not_sends_accepted {d : NetTcpDataPkg} (hver : CURRENT_PROTOCOL_VERSION < d.m_u8Version) :
    ¬ ∀ nSendType cmd input outsize f, d.PkgProtocolData nSendType cmd input outsize = some f →
      contentVersion (frameContent f) ≤ CURRENT_PROTOCOL_VERSION := by
  intro hsend
  have hpack := PkgProtocolData_eq d MSG_REQ 0 [] (Nat.le_refl _)
  have hle := hsend MSG_REQ 0 [] _ _ hpack
  rw [version_of_packed hpack] at hle
  exact absurd hle (UInt8.not_le.mpr hver)

theorem version_of_receiveFrame {d d' : NetTcpDataPkg} {f : List UInt8} (h : Rejected f)
    (hval : (d.receiveFrame f).val = some d') : CURRENT_PROTOCOL_VERSION < d'.m_u8Version := by
  obtain ⟨-, hd'⟩ := Option.ite_none_right_eq_some.mp hval
  rw [← Option.some.inj hd', (d.received_of_rejected h).2.1]
  exact h.2

/-- A rejected frame at the front of the receive buffer always leaves a trace. -/
theorem not_noTrace_of_rejected (d : NetTcpDataPkg) {body rest : List UInt8}
    (hb : d.m_receive_buffer = body ++ cTailFlag :: rest) (h : Rejected (body ++ [cTailFlag])) :
    ¬ NoTrace d (d.HandlePkg body.length) := by
  rw [HandlePkg_eq d hb]
  intro htrace
  obtain ⟨-, d', hval, -, -, hsend⟩ := htrace
  exact not_sends_accepted (version_of_receiveFrame h hval) hsend

/-- An object that has just been made and has received a frame of version 5. -/
def withVersion5 : NetTcpDataPkg :=
  { new "6000" "10.0.0.2:5000" with
    m_receive_buffer := [0x7D, 0, 0, 0, 14, 5, 0, 0, 0x11, 0, 0, 0x37, 0x52, 0x0B]
    m_bHaveHead := true }

theorem version_after_rejected :
    Rejected withVersion5.m_receive_buffer ∧ withVersion5.m_u8Version = 4 ∧
      callbacks (withVersion5.HandlePkg 13).log = [] ∧ (withVersion5.HandlePkg 13).val.map m_u8Version = some 5 ∧
      ¬ NoTrace withVersion5 (withVersion5.HandlePkg 13) := by
  have hversion : (withVersion5.HandlePkg 13).val.map m_u8Version = some 5 := by decide +kernel
  refine ⟨?_, rfl, ?_, hversion, fun htrace => ?_⟩
  · unfold Rejected
    decide +kernel
  · decide +kernel
  · obtain ⟨-, d', hval, hver, -⟩ := htrace
    rw [hval, Option.map_some, hver] at hversion
    exact absurd hversion (by decide)

theorem not_noTrace_version5 : ¬ NoTrace withVersion5 (withVersion5.HandlePkg 13) := by
  have hrejected : Rejected withVersion5.m_receive_buffer := by
    unfold Rejected
    decide +kernel
  exact @not_noTrace_of_rejected withVersion5 withVersion5.m_receive_buffer.dropLast [] rfl hrejected

/-- So does one that a call of `UnDataPkg` recognises, wherever the stream was cut. -/
theorem not_noTrace_UnDataPkg {d : NetTcpDataPkg} (hd : d.Settled) {chunk f : List UInt8} (hc : IsChunk chunk)
    (hscan : (scan d.clip.pending chunk).1 = [f]) (h : Rejected f) :
    ¬ NoTrace d ((d.UnDataPkg chunk).mapVal Prod.snd) := by
  intro htrace
  obtain ⟨-, d', hval, -, -, hsend⟩ := htrace
  obtain ⟨r, hr, rfl⟩ := Option.map_eq_some_iff.mp hval
  rw [UnDataPkg_eq hd hc, feed, feedFrom, hscan] at hr
  obtain ⟨d₁, hd₁, rfl⟩ := Option.map_eq_some_iff.mp hr
  obtain ⟨d₂, hd₂, rfl⟩ := Option.map_eq_some_iff.mp hd₁
  obtain ⟨d₃, hd₃, hpure⟩ := Traced.val_bind_eq_some.mp hd₂
  obtain rfl := Option.some.inj hpure
  have hver := version_of_receiveFrame h hd₃
  exact not_sends_accepted (d := d₃.withPending _) hver hsend

end NetTcpDataPkg

end Perception.Net
