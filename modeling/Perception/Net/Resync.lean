import Perception.Net.RoundTrip

/-!
# Messages after garbage

Garbage in front of packed messages can damage the first message only. The tail of
that message ends whatever the garbage began, and the hunt starts again at the next
message.
-/
namespace Perception.Net

set_option autoImplicit false

open Perception.Lib NetTcpDataPkg

/-- A message with the packer that packs it. -/
structure Message where
  sender : NetTcpDataPkg
  nSendType : Int
  cmd : UInt16
  input : List UInt8
  outsize : Nat

namespace Message

def packed (m : Message) : Option (List UInt8) :=
  m.sender.PkgProtocolData m.nSendType m.cmd m.input m.outsize

/-- What the callback is given when the message arrives. -/
def delivered (srv cli : String) (m : Message) : Callback :=
  NetTcpDataPkg.delivered srv cli m.nSendType m.cmd m.input

/-- `f` is the frame of `m`, packed under version 4 with clean length bytes. -/
structure PackedAs (m : Message) (f : List UInt8) : Prop where
  packed : m.packed = some f
  version : m.sender.m_u8Version = 4
  lengthClean : cTailFlag ∉ (f.drop nHeadFlagLen).take nIntLen

theorem PackedAs.eq_frame {m : Message} {f : List UInt8} (h : m.PackedAs f) :
    f = m.sender.frame m.nSendType m.cmd m.input :=
  NetTcpDataPkg.eq_frame _ _ _ _ h.packed

/-- A packed message leads to its callback. -/
theorem PackedAs.callbacks {m : Message} {f : List UInt8} (h : m.PackedAs f)
    (hle : f.length ≤ nMaxPkgLen) (srv cli : String) :
    frameCallbacks srv cli [f] = [m.delivered srv cli] := by
  obtain rfl := h.eq_frame
  rw [frame_length] at hle
  have hver : m.sender.m_u8Version ≤ CURRENT_PROTOCOL_VERSION := by
    rw [h.version]
    decide
  have hdisp := (frame_dispatched_iff _ m.nSendType m.cmd m.input hle).mpr hver
  rw [frameCallbacks_cons, if_pos hdisp, frameContent_frame, contentCallback_pkgContent]
  rfl

end Message

end Perception.Net
