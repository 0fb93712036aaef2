import Perception.Lib.Crc
import Perception.Net.CalcCrc

/-!
# The table computes the check bit by bit

A byte goes through the register in eight steps. The table has the register after the eight steps
from zero, and a register goes out of itself by what its high byte adds.
-/
namespace Perception.Net

set_option autoImplicit false

open Perception.Lib

/-- The bits of a byte, the most significant first. -/
def byteBits (b : UInt8) : List Bool := (List.range 8).map b.toBitVec.getMsbD

def messageBits (m : List UInt8) : List Bool := m.flatMap byteBits

/-- CRC-16 with the polynomial 0x1021. -/
def crc16 (m : List UInt8) : UInt16 := UInt16.ofBitVec (Crc.crc 0x1021#16 (messageBits m))

theorem byteBits_xor (a b : UInt8) : byteBits (a ^^^ b) = Crc.difference (byteBits a) (byteBits b) := by
  simp only [byteBits, Crc.difference, List.zipWith_map, List.zipWith_self, UInt8.toBitVec_xor]
  exact List.map_congr_left fun i _ => BitVec.getMsbD_xor

theorem length_byteBits (b : UInt8) : (byteBits b).length = 8 := by
  rw [byteBits, List.length_map, List.length_range]

/-- The table has the register after a byte. -/
theorem feedAll_byte (b : UInt8) :
    Crc.feedAll 0x1021#16 0#16 (byteBits b) = (pu16CRC1021Table.getD b.toNat 0).toBitVec := by
  have htable : ∀ n : Fin 256, Crc.feedAll 0x1021#16 0#16 (byteBits (UInt8.ofNat n)) =
      (pu16CRC1021Table.getD n 0).toBitVec := by decide +kernel
  have hb := htable ⟨b.toNat, b.toNat_lt⟩
  rwa [UInt8.ofNat_toNat] at hb

/-- Eight zeros take the low byte to the place of the high one. -/
theorem feedAll_low (b : UInt8) :
    Crc.feedAll 0x1021#16 (b.toBitVec.setWidth 16) (List.replicate 8 false) = b.toBitVec.setWidth 16 <<< 8 := by
  have hlow : ∀ n : Fin 256, Crc.feedAll 0x1021#16 ((UInt8.ofNat n).toBitVec.setWidth 16) (List.replicate 8 false) =
      (UInt8.ofNat n).toBitVec.setWidth 16 <<< 8 := by decide +kernel
  have hb := hlow ⟨b.toNat, b.toNat_lt⟩
  rwa [UInt8.ofNat_toNat] at hb

/-- The high byte is gone when the same byte comes. -/
theorem feedAll_high (b : UInt8) :
    Crc.feedAll 0x1021#16 (b.toBitVec.setWidth 16 <<< 8) (byteBits b) = 0#16 := by
  have hhigh : ∀ n : Fin 256, Crc.feedAll 0x1021#16 ((UInt8.ofNat n).toBitVec.setWidth 16 <<< 8)
      (byteBits (UInt8.ofNat n)) = 0#16 := by decide +kernel
  have hb := hhigh ⟨b.toNat, b.toNat_lt⟩
  rwa [UInt8.ofNat_toNat] at hb

/-- The two bytes of a register. -/
theorem toBitVec_bytes (c : UInt16) :
    c.toBitVec = c.toUInt8.toBitVec.setWidth 16 ^^^ (c >>> 8).toUInt8.toBitVec.setWidth 16 <<< 8 := by
  apply BitVec.eq_of_getLsbD_eq
  intro i hi
  by_cases hlow : i < 8
  · simp [hi, hlow]
  · have hplace : 8 + (i - 8) = i := by omega
    have hplace' : i - 8 < 8 := by omega
    have hplace'' : i - 8 < 16 := by omega
    simp [hi, hlow, hplace, hplace', hplace'']

theorem shiftLeft_low (c : UInt16) : (c <<< 8).toBitVec = c.toUInt8.toBitVec.setWidth 16 <<< 8 := by
  apply BitVec.eq_of_getLsbD_eq
  intro i hi
  by_cases hlow : i < 8
  · simp [hlow]
  · have hplace : i - 8 < 8 := by omega
    have hplace' : i - 8 < 16 := by omega
    simp [hplace, hplace']

/-- A step with the table is eight steps with the bits of the byte. -/
theorem toBitVec_crcStep (c : UInt16) (b : UInt8) :
    (crcStep c b).toBitVec = Crc.feedAll 0x1021#16 c.toBitVec (byteBits b) := by
  have hlen (x y : UInt8) : (byteBits x).length = (byteBits y).length := by rw [length_byteBits, length_byteBits]
  have hzeros : byteBits 0 = List.replicate 8 false := by decide
  have hsame : byteBits b = Crc.difference (byteBits 0) (byteBits b) := by rw [← byteBits_xor, UInt8.zero_xor]
  have hhigh : byteBits b = Crc.difference (byteBits (c >>> 8).toUInt8) (byteBits ((c >>> 8).toUInt8 ^^^ b)) := by
    rw [← byteBits_xor, ← UInt8.xor_assoc, UInt8.xor_self, UInt8.zero_xor]
  have hsplit : Crc.feedAll 0x1021#16 c.toBitVec (byteBits b) =
      c.toUInt8.toBitVec.setWidth 16 <<< 8 ^^^
        Crc.feedAll 0x1021#16 ((c >>> 8).toUInt8.toBitVec.setWidth 16 <<< 8) (byteBits b) := by
    conv_lhs => rw [hsame, toBitVec_bytes, Crc.feedAll_xor _ _ _ (hlen 0 b), hzeros, feedAll_low]
  have hout : Crc.feedAll 0x1021#16 ((c >>> 8).toUInt8.toBitVec.setWidth 16 <<< 8) (byteBits b) =
      (pu16CRC1021Table.getD ((c >>> 8).toUInt8 ^^^ b).toNat 0).toBitVec := by
    have hxor := Crc.feedAll_xor 0x1021#16 ((c >>> 8).toUInt8.toBitVec.setWidth 16 <<< 8) 0#16
      (hlen (c >>> 8).toUInt8 ((c >>> 8).toUInt8 ^^^ b))
    rwa [← hhigh, BitVec.xor_zero, feedAll_high, feedAll_byte, BitVec.zero_xor] at hxor
  rw [hsplit, hout, crcStep, UInt16.toBitVec_xor, shiftLeft_low, BitVec.xor_comm]

theorem toBitVec_foldl_crcStep (c : UInt16) (m : List UInt8) :
    (m.foldl crcStep c).toBitVec = Crc.feedAll 0x1021#16 c.toBitVec (messageBits m) := by
  induction m generalizing c with
  | nil => rfl
  | cons b m ih =>
    rw [List.foldl_cons, ih, toBitVec_crcStep, messageBits, messageBits, List.flatMap_cons, Crc.feedAll_append]

theorem CalcCRC1021_eq_crc16 (m : List UInt8) : CalcCRC1021 m = crc16 m := by
  apply UInt16.toBitVec_inj.mp
  exact toBitVec_foldl_crcStep 0 m

theorem length_messageBits (m : List UInt8) : (messageBits m).length = 8 * m.length := by
  induction m with
  | nil => rfl
  | cons b m ih =>
    rw [messageBits, List.flatMap_cons, List.length_append, length_byteBits]
    rw [messageBits] at ih
    rw [ih, List.length_cons]
    omega

theorem byteBits_inj {a b : UInt8} (h : byteBits a = byteBits b) : a = b := by
  apply UInt8.toBitVec_inj.mp
  apply BitVec.eq_of_getMsbD_eq
  intro i hi
  exact List.map_inj_left.mp h i (List.mem_range.mpr hi)

theorem messageBits_inj {a b : List UInt8} (h : messageBits a = messageBits b) : a = b := by
  induction a generalizing b with
  | nil =>
    have hlen := congrArg List.length h
    rw [length_messageBits, length_messageBits, List.length_nil] at hlen
    exact (List.eq_nil_of_length_eq_zero (by omega)).symm
  | cons x a ih =>
    cases b with
    | nil =>
      have hlen := congrArg List.length h
      rw [length_messageBits, length_messageBits, List.length_cons, List.length_nil] at hlen
      omega
    | cons y b =>
      rw [messageBits, messageBits, List.flatMap_cons, List.flatMap_cons] at h
      obtain ⟨hfirst, hrest⟩ := List.append_inj h ((length_byteBits x).trans (length_byteBits y).symm)
      rw [byteBits_inj hfirst, ih hrest]

/-- Two messages that differ within sixteen consecutive bits. -/
theorem CalcCRC1021_ne_of_burst {a b : List UInt8} (hlen : a.length = b.length) (hne : a ≠ b) {k : Nat}
    (hburst : ∀ i, (messageBits a).getD i false ≠ (messageBits b).getD i false → k ≤ i ∧ i < k + 16) :
    CalcCRC1021 a ≠ CalcCRC1021 b := by
  have hbits : (messageBits a).length = (messageBits b).length := by
    rw [length_messageBits, length_messageBits, hlen]
  have hpoly : (0x1021#16).getLsbD 0 = true := by decide
  have hcrc := Crc.crc_ne_of_burst hpoly hbits (fun h => hne (messageBits_inj h)) hburst
  intro heq
  rw [CalcCRC1021_eq_crc16, CalcCRC1021_eq_crc16] at heq
  exact hcrc (UInt16.toBitVec_inj.mpr heq)

/-- **The checksum.** It is the bitwise check of every message, and tells any two messages of one
length apart that differ only within sixteen consecutive bits. -/
theorem CalcCRC1021_bitwise : (∀ m : List UInt8, CalcCRC1021 m = crc16 m) ∧
    ∀ (a b : List UInt8) (k : Nat), a.length = b.length → a ≠ b →
      (∀ i, (messageBits a).getD i false ≠ (messageBits b).getD i false → k ≤ i ∧ i < k + 16) →
      CalcCRC1021 a ≠ CalcCRC1021 b :=
  ⟨CalcCRC1021_eq_crc16, fun _ _ _ hlen hne hburst => CalcCRC1021_ne_of_burst hlen hne hburst⟩

example : crc16 [0x31, 0x32, 0x33, 0x34, 0x35, 0x36, 0x37, 0x38, 0x39] = 0x31C3 := by decide +kernel

end Perception.Net
