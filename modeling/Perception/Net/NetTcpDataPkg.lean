import Perception.Lib.Traced
import Perception.Buf.SmartBuffer
import Perception.Net.CalcCrc
import Perception.Net.Convt

/-!
# The packer and unpacker `CNetTcpDataPkg`

The class as the source writes it, on the contents of its buffers. Multi-byte fields
are given by the bytes that travel: `htons`, `htonl` and `SwapWord` on the
little-endian target put the high byte first, while the length stored in
`m_pkg_buffer` keeps the order of the target.

`UnCode` is an array of `nMaxPkgLen` bytes. A write past its end has no defined
outcome, so the computation stops there. Each call of `UnconvtCode` and of the
distribute callback is an event of the trace.
-/
namespace Perception.Net

set_option autoImplicit false

open Perception.Lib Perception.Buf

def nIntLen : Nat := 4
def nMaxRecCache : Nat := 3000 * 1024
def nMaxPkgLen : Nat := 3000 * 1024

def CURRENT_PROTOCOL_VERSION : UInt8 := 0x04

/-- `sizeof(SPkgHead)`: flag, length, version, seqno, cmd, type and result, packed. -/
def nPkgHeadLen : Nat := 11
/-- `sizeof(SPkgTail)`: crc and flag, packed. -/
def nPkgTailLen : Nat := 3
def nPkgNobodyLen : Nat := nPkgHeadLen + nPkgTailLen
def nHeadFlagLen : Nat := 1
def nTailFlagLen : Nat := 1
def s32HeardOffSet : Nat := nHeadFlagLen + nIntLen
def cHeadFlag : UInt8 := 0x7D
def cTailFlag : UInt8 := 0x0B

def MSG_REQ : Int := 1
def MSG_RSP : Int := 2

/-- Two bytes, high byte first. -/
def wordBytes (w : UInt16) : List UInt8 := [UInt8.ofNat (w.toNat / 256), UInt8.ofNat (w.toNat % 256)]

def wordOf (hi lo : UInt8) : UInt16 := UInt16.ofNat (hi.toNat * 256 + lo.toNat)

/-- Four bytes, high byte first. -/
def dwordBytes (n : Nat) : List UInt8 :=
  [UInt8.ofNat (n / 16777216), UInt8.ofNat (n / 65536), UInt8.ofNat (n / 256), UInt8.ofNat n]

/-- An `int` as it lies in memory. -/
def intBytes (n : Nat) : List UInt8 := (dwordBytes n).reverse

def intOf (bs : List UInt8) : Nat :=
  (bs.getD 0 0).toNat + 256 * (bs.getD 1 0).toNat + 65536 * (bs.getD 2 0).toNat +
    16777216 * (bs.getD 3 0).toNat

/-- The fields of `SPkgHead` that the packer sets; `length` stays zero in it. -/
structure SPkgHead where
  flag : UInt8
  version : UInt8
  seqno : UInt16
  cmd : UInt8
  type : UInt8
  result : UInt8
  deriving DecidableEq

/-- The head from the version on. -/
def SPkgHead.fields (h : SPkgHead) : List UInt8 :=
  h.version :: wordBytes h.seqno ++ [h.cmd, h.type, h.result]

def SPkgHead.bytes (h : SPkgHead) : List UInt8 := h.flag :: dwordBytes 0 ++ h.fields

/-- What the distribute callback is called with. -/
structure Callback where
  cmd : UInt8
  result : UInt8
  body : List UInt8
  strServerFlag : String
  strCliFlag : String
  deriving DecidableEq

/-- `unconvt`: a call of `UnconvtCode`, with the number of bytes it writes and whether
its reads stay inside the receive buffer. `distribute`: a call of the distribute
callback, with the version and the sequence number the object holds at that moment. -/
inductive Event where
  | unconvt (written : Nat) (readInside : Bool)
  | distribute (cb : Callback) (version : UInt8) (seqno : UInt16)
  deriving DecidableEq

/-- The callbacks of a trace. -/
def callbacks (log : List Event) : List Callback :=
  log.filterMap fun
    | .unconvt _ _ => none
    | .distribute cb _ _ => some cb

/-- The members of the class. The print callback is left out: its one constructor
call passes none. -/
structure NetTcpDataPkg where
  m_receive_buffer : List UInt8
  m_pkg_buffer : List UInt8
  m_bHaveHead : Bool
  m_seqno : UInt16
  m_u8Version : UInt8
  m_nOriginalDataLen : Nat
  m_strServerFlag : String
  m_strCliFlag : String
  deriving DecidableEq

namespace NetTcpDataPkg

/-- The constructor. -/
def new (strServerFlag strCliFlag : String) : NetTcpDataPkg where
  m_receive_buffer := []
  m_pkg_buffer := []
  m_bHaveHead := false
  m_seqno := 0
  m_u8Version := 0x04
  m_nOriginalDataLen := 0
  m_strServerFlag := strServerFlag
  m_strCliFlag := strCliFlag

def ReadPkgHead (d : NetTcpDataPkg) : Bool × NetTcpDataPkg :=
  match SmartBuffer.find d.m_receive_buffer cHeadFlag with
  | none => (false, { d with m_receive_buffer := [], m_bHaveHead := false })
  | some nHeadIndex =>
    let buffer :=
      if 0 < nHeadIndex then SmartBuffer.truncate d.m_receive_buffer nHeadIndex
      else d.m_receive_buffer
    (true, { d with m_receive_buffer := buffer, m_bHaveHead := true })

def ParsePkgData (d : NetTcpDataPkg) : Traced Event NetTcpDataPkg := do
  let pkg := d.m_pkg_buffer
  let d := { d with m_u8Version := pkg.getD 5 0 }
  if d.m_u8Version ≤ CURRENT_PROTOCOL_VERSION then
    let d := { d with m_seqno := wordOf (pkg.getD 6 0) (pkg.getD 7 0) }
    let nPkgTotalLen := intOf ((pkg.drop nHeadFlagLen).take nIntLen)
    let nPkgBodyLen := nPkgTotalLen - nPkgNobodyLen
    Traced.emit (.distribute
      { cmd := pkg.getD 8 0
        result := pkg.getD 10 0
        body := (pkg.drop nPkgHeadLen).take nPkgBodyLen
        strServerFlag := d.m_strServerFlag
        strCliFlag := d.m_strCliFlag } d.m_u8Version d.m_seqno)
    pure { d with m_pkg_buffer := [] }
  else
    pure { d with m_pkg_buffer := [] }

/-- `ReadWholePkg` from the un-escaped bytes on: rebuild the package, check its crc. -/
def CheckPkg (d : NetTcpDataPkg) (UnCode : List UInt8) : Traced Event NetTcpDataPkg :=
  let s32RawProtoclDataLen := s32HeardOffSet + UnCode.length + nTailFlagLen
  let pkg := cHeadFlag :: intBytes s32RawProtoclDataLen ++ UnCode ++ [cTailFlag]
  let d := { d with m_pkg_buffer := pkg }
  if nPkgNobodyLen ≤ s32RawProtoclDataLen then
    let pTail := pkg.drop (s32RawProtoclDataLen - nPkgTailLen)
    let u16PkgCRC := wordOf (pTail.getD 0 0) (pTail.getD 1 0)
    let u16CalcCRC := CalcCRC1021
      ((pkg.drop s32HeardOffSet).take (s32RawProtoclDataLen - s32HeardOffSet - nPkgTailLen))
    if u16CalcCRC = u16PkgCRC then d.ParsePkgData else pure d
  else pure d

/-- The loop body of `ReadWholePkg` once a tail flag was found, up to the final
`truncate` that all its paths share. -/
def HandlePkg (d : NetTcpDataPkg) (nTailIndex : Nat) : Traced Event NetTcpDataPkg := do
  let d := { d with m_nOriginalDataLen := nTailIndex + 1 }
  if d.m_nOriginalDataLen < nPkgNobodyLen then
    pure d
  else
    let input := d.m_receive_buffer.drop s32HeardOffSet
    let (nRead, UnCode) := UnconvtCode input (d.m_nOriginalDataLen - s32HeardOffSet - nTailFlagLen)
    Traced.emit (.unconvt UnCode.length (decide (nRead ≤ input.length)))
    if nMaxPkgLen < UnCode.length ∨ input.length < nRead then
      Traced.halt
    else if UnCode.length ≤ 0 then
      pure d
    else
      d.CheckPkg UnCode

/-- The loop of `ReadWholePkg`. Every turn removes bytes from the receive buffer, so
fuel above its length is never used up. -/
def ReadWholePkgLoop : Nat → NetTcpDataPkg → Traced Event NetTcpDataPkg
  | 0, _ => Traced.halt
  | fuel + 1, d =>
    let (bHaveHead, d) := if d.m_bHaveHead then (true, d) else d.ReadPkgHead
    if bHaveHead then
      match SmartBuffer.find d.m_receive_buffer cTailFlag with
      | none => pure d
      | some nTailIndex => do
        let d ← d.HandlePkg nTailIndex
        ReadWholePkgLoop fuel
          { d with
            m_receive_buffer := SmartBuffer.truncate d.m_receive_buffer d.m_nOriginalDataLen
            m_bHaveHead := false }
    else pure d

def ReadWholePkg (d : NetTcpDataPkg) : Traced Event NetTcpDataPkg :=
  ReadWholePkgLoop (d.m_receive_buffer.length + 1) d

def UnDataPkg (d : NetTcpDataPkg) (recvbuf : List UInt8) : Traced Event (Bool × NetTcpDataPkg) := do
  if recvbuf.length = 0 ∨ nMaxPkgLen < recvbuf.length then
    pure (false, d)
  else
    -- the over-long buffer is cleared, the head state is not
    let buffer := if nMaxRecCache < d.m_receive_buffer.length then [] else d.m_receive_buffer
    let d := { d with m_receive_buffer := buffer ++ recvbuf }
    if !d.m_bHaveHead then
      let (bRet, d) := d.ReadPkgHead
      if bRet then
        let d ← d.ReadWholePkg
        pure (true, d)
      else pure (true, d)
    else
      let d ← d.ReadWholePkg
      pure (true, d)

def MakeSendPkgHead (h : SPkgHead) : SPkgHead := { h with type := 0x00, result := 0x00 }

def MakeResponePkgHead (d : NetTcpDataPkg) (h : SPkgHead) : SPkgHead :=
  { h with type := 0x01, result := 0x01, seqno := d.m_seqno }

/-- The head `PkgProtocolData` builds; the command is cut to one byte. -/
def MakePkgHead (d : NetTcpDataPkg) (nSendType : Int) (cmd : UInt16) : SPkgHead :=
  let h : SPkgHead :=
    { flag := cHeadFlag, version := d.m_u8Version, seqno := 0, cmd := cmd.toUInt8, type := 0, result := 0 }
  if nSendType = MSG_REQ then MakeSendPkgHead h
  else if nSendType = MSG_RSP then d.MakeResponePkgHead h
  else h

/-- The bytes from the version to the crc, before escaping. -/
def pkgContent (d : NetTcpDataPkg) (nSendType : Int) (cmd : UInt16) (input : List UInt8) : List UInt8 :=
  let checked := (d.MakePkgHead nSendType cmd).fields ++ input
  checked ++ wordBytes (CalcCRC1021 checked)

/-- The bytes written to `output`, `outputlen` of them; `none` when it returns false.
The size check is made on the package before escaping. -/
def PkgProtocolData (d : NetTcpDataPkg) (nSendType : Int) (cmd : UInt16) (input : List UInt8)
    (outsize : Nat) : Option (List UInt8) :=
  let nAllocMemLen := nPkgHeadLen + input.length + nPkgTailLen
  if outsize < nAllocMemLen then none
  else
    let convt := ConvtCode (d.pkgContent nSendType cmd input)
    let outputlen := s32HeardOffSet + convt.length + nTailFlagLen
    some (cHeadFlag :: dwordBytes outputlen ++ convt ++ [cTailFlag])

end NetTcpDataPkg

end Perception.Net
