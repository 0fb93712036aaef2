import Perception.Lib.Traced

/-!
# Base64

`CBase64::Encode` and `CBase64::Decode`, with the places of `Data` and of the table that the
decoder looks at. Lengths are `int`s, so that a size that is passed is converted first.
-/
namespace Perception.EnDecode

set_option autoImplicit false

open Perception.Lib

def INT_MAX : Int := 2147483647

/-- A `size_t` as an `int`. -/
def intOfSize (n : Nat) : Int := (n : Int).bmod 4294967296

namespace CBase64

def EncodeTable : List UInt8 :=
  "ABCDEFGHIJKLMNOPQRSTUVWXYZabcdefghijklmnopqrstuvwxyz0123456789+/".toList.map fun c => UInt8.ofNat c.toNat

/-- `EncodeTable[n]`. -/
def symbol (n : Nat) : UInt8 := EncodeTable.getD n 0

/-- The loop over the whole triples, and what is left of `Data` behind them. -/
def encodeTriples : Nat → List UInt8 → List UInt8 × List UInt8
  | i + 1, d₁ :: d₂ :: d₃ :: Data =>
    let r := encodeTriples i Data
    (symbol (d₁.toNat >>> 2) :: symbol (((d₁.toNat <<< 4) ||| (d₂.toNat >>> 4)) &&& 0x3F) ::
      symbol (((d₂.toNat <<< 2) ||| (d₃.toNat >>> 6)) &&& 0x3F) :: symbol (d₃.toNat &&& 0x3F) :: r.1, r.2)
  | _, Data => ([], Data)

def Encode (Data : List UInt8) (DataByte : Int) : List UInt8 :=
  let r := encodeTriples (DataByte.tdiv 3).toNat Data
  let Mod := DataByte.tmod 3
  let t₁ := (r.2.getD 0 0).toNat
  let t₂ := (r.2.getD 1 0).toNat
  r.1 ++
    if Mod = 1 then [symbol ((t₁ &&& 0xFC) >>> 2), symbol ((t₁ &&& 0x03) <<< 4), 61, 61]
    else if Mod = 2 then
      [symbol ((t₁ &&& 0xFC) >>> 2), symbol (((t₁ &&& 0x03) <<< 4) ||| ((t₂ &&& 0xF0) >>> 4)),
        symbol ((t₂ &&& 0x0F) <<< 2), 61]
    else []

def DecodeTable : List Nat :=
  [0, 0, 0, 0, 0, 0, 0, 0, 0, 0, 0, 0, 0, 0, 0, 0, 0, 0, 0, 0, 0, 0, 0, 0,
    0, 0, 0, 0, 0, 0, 0, 0, 0, 0, 0, 0, 0, 0, 0, 0, 0, 0, 0,
    62, -- '+'
    0, 0, 0,
    63, -- '/'
    52, 53, 54, 55, 56, 57, 58, 59, 60, 61, -- '0'-'9'
    0, 0, 0, 0, 0, 0, 0,
    0, 1, 2, 3, 4, 5, 6, 7, 8, 9, 10, 11, 12,
    13, 14, 15, 16, 17, 18, 19, 20, 21, 22, 23, 24, 25, -- 'A'-'Z'
    0, 0, 0, 0, 0, 0,
    26, 27, 28, 29, 30, 31, 32, 33, 34, 35, 36, 37, 38,
    39, 40, 41, 42, 43, 44, 45, 46, 47, 48, 49, 50, 51] -- 'a'-'z'

/-- The decoder reads `Data[p]`, or `DecodeTable[n]`. -/
inductive Access
  | data (p : Nat)
  | table (n : Int)
  deriving DecidableEq

/-- `Data[p]`: a byte of the input or the NUL that ends it. -/
def readData (Data : List UInt8) (p : Nat) : Traced Access UInt8 := do
  .emit (.data p)
  match (Data ++ [0])[p]? with
  | some c => pure c
  | none => .halt

/-- `DecodeTable[c]`, where `c` is a signed `char`. -/
def readTable (c : UInt8) : Traced Access Nat := do
  let n := c.toInt8.toInt
  .emit (.table n)
  match if 0 ≤ n then DecodeTable[n.toNat]? else none with
  | some v => pure v
  | none => .halt

structure Decoded where
  strDecode : List UInt8
  OutByte : Int
  deriving DecidableEq

/-- `strDecode += nValue; OutByte++`. -/
def Decoded.push (r : Decoded) (nValue : Nat) : Decoded :=
  ⟨r.strDecode ++ [UInt8.ofNat nValue], r.OutByte + 1⟩

/-- `DecodeTable[*Data]` at place `p`. -/
def nextValue (Data : List UInt8) (p : Nat) : Traced Access Nat := do
  let c ← readData Data p
  readTable c

/-- The last character of a group, and the place behind the group. -/
def decodeFourth (Data : List UInt8) (p nValue : Nat) (r : Decoded) : Traced Access (Decoded × Nat) := do
  let c ← readData Data p
  if c ≠ 61 then
    let v ← nextValue Data p
    let nValue := nValue + v
    pure (r.push (nValue &&& 0x000000FF), p + 1)
  else pure (r, p)

def decodeThird (Data : List UInt8) (p nValue : Nat) (r : Decoded) : Traced Access (Decoded × Nat) := do
  let c ← readData Data p
  if c ≠ 61 then
    let v ← nextValue Data p
    let nValue := nValue + v <<< 6
    decodeFourth Data (p + 1) nValue (r.push ((nValue &&& 0x0000FF00) >>> 8))
  else pure (r, p)

def decodeGroup (Data : List UInt8) (p : Nat) (r : Decoded) : Traced Access (Decoded × Nat) := do
  let v ← nextValue Data p
  let nValue := v <<< 18
  let v ← nextValue Data (p + 1)
  let nValue := nValue + v <<< 12
  decodeThird Data (p + 2) nValue (r.push ((nValue &&& 0x00FF0000) >>> 16))

/-- The loop from place `p` and count `i` on. Every turn moves the place, so that the places
run out before the fuel does. -/
def DecodeLoop (Data : List UInt8) (DataByte : Int) : Nat → Nat → Int → Decoded → Traced Access Decoded
  | 0, _, _, _ => .halt
  | fuel + 1, p, i, r =>
    if i < DataByte then do
      let c ← readData Data p
      if c ≠ 13 ∧ c ≠ 10 then
        let g ← decodeGroup Data p r
        if INT_MAX < i + 4 then .halt else DecodeLoop Data DataByte fuel g.2 (i + 4) g.1
      else DecodeLoop Data DataByte fuel (p + 1) (i + 1) r
    else pure r

def Decode (Data : List UInt8) (DataByte OutByte : Int) : Traced Access Decoded :=
  DecodeLoop Data DataByte (Data.length + 2) 0 0 ⟨[], OutByte⟩

end CBase64

end Perception.EnDecode
