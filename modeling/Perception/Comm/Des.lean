import Perception.Lib.Undo

/-!
# DES

`encrypt_des` and `decrypt_des` on arrays of bits, one byte for each. The rotations work in
place and copy the cell beside the array as well, before they write over the copy; what is in
that cell is an input.
-/
namespace Perception.Comm

set_option autoImplicit false

open Perception.Lib

/-- The inner loop: the bits of a byte, the highest first. -/
def charBits : Nat → UInt8 → List UInt8
  | 0, _ => []
  | cnt1 + 1, ch => (if ch &&& 0x80 = 0x80 then 0x01 else 0x00) :: charBits cnt1 (ch <<< 1)

def Char8ToBit64 (ch : List UInt8) : List UInt8 := ch.flatMap (charBits 8)

def bitsChar (bit_a : List UInt8) : UInt8 := bit_a.foldl (fun ch bit => (ch <<< 1) ||| bit) 0

/-- The bytes of the first `8 * cnt` bits. -/
def bitsChars : Nat → List UInt8 → List UInt8
  | 0, _ => []
  | cnt + 1, bit_a => bitsChar (bit_a.take 8) :: bitsChars cnt (bit_a.drop 8)

def Bit64ToChar8 (bit_a : List UInt8) : List UInt8 := bitsChars 8 bit_a

/-- `temp[cnt] = data_a[table[cnt]]` for all places of a table. -/
def transform (table : List Nat) (data_a : List UInt8) : List UInt8 := table.map fun cnt => data_a.getD cnt 0

def PC_1 : List Nat :=
  [56, 48, 40, 32, 24, 16, 8, 0, 57, 49, 41, 33, 25, 17,
    9, 1, 58, 50, 42, 34, 26, 18, 10, 2, 59, 51, 43, 35,
    62, 54, 46, 38, 30, 22, 14, 6, 61, 53, 45, 37, 29, 21,
    13, 5, 60, 52, 44, 36, 28, 20, 12, 4, 27, 19, 11, 3]

def PC_2 : List Nat :=
  [13, 16, 10, 23, 0, 4, 2, 27, 14, 5, 20, 9,
    22, 18, 11, 3, 25, 7, 15, 6, 26, 19, 12, 1,
    40, 51, 30, 36, 46, 54, 29, 39, 50, 44, 32, 47,
    43, 48, 38, 55, 33, 52, 45, 41, 49, 35, 28, 31]

def IP_Table : List Nat :=
  [57, 49, 41, 33, 25, 17, 9, 1, 59, 51, 43, 35, 27, 19, 11, 3,
    61, 53, 45, 37, 29, 21, 13, 5, 63, 55, 47, 39, 31, 23, 15, 7,
    56, 48, 40, 32, 24, 16, 8, 0, 58, 50, 42, 34, 26, 18, 10, 2,
    60, 52, 44, 36, 28, 20, 12, 4, 62, 54, 46, 38, 30, 22, 14, 6]

def IP_1_Table : List Nat :=
  [39, 7, 47, 15, 55, 23, 63, 31, 38, 6, 46, 14, 54, 22, 62, 30,
    37, 5, 45, 13, 53, 21, 61, 29, 36, 4, 44, 12, 52, 20, 60, 28,
    35, 3, 43, 11, 51, 19, 59, 27, 34, 2, 42, 10, 50, 18, 58, 26,
    33, 1, 41, 9, 49, 17, 57, 25, 32, 0, 40, 8, 48, 16, 56, 24]

def E_Table : List Nat :=
  [31, 0, 1, 2, 3, 4, 3, 4, 5, 6, 7, 8,
    7, 8, 9, 10, 11, 12, 11, 12, 13, 14, 15, 16,
    15, 16, 17, 18, 19, 20, 19, 20, 21, 22, 23, 24,
    23, 24, 25, 26, 27, 28, 27, 28, 29, 30, 31, 0]

def P_Table : List Nat :=
  [15, 6, 19, 20, 28, 11, 27, 16, 0, 14, 22, 25, 4, 17, 30, 9,
    1, 7, 23, 13, 31, 26, 2, 8, 18, 12, 29, 5, 21, 10, 3, 24]

def DES_PC1_Transform (key : List UInt8) : List UInt8 := transform PC_1 key
def DES_PC2_Transform (key : List UInt8) : List UInt8 := transform PC_2 key
def DES_IP_Transform (data_a : List UInt8) : List UInt8 := transform IP_Table data_a
def DES_IP_1_Transform (data_a : List UInt8) : List UInt8 := transform IP_1_Table data_a
def DES_E_Transform (data_a : List UInt8) : List UInt8 := transform E_Table data_a

/-- The first 32 of the cells of an array. -/
def DES_P_Transform (data_a : List UInt8) : List UInt8 := transform P_Table data_a ++ data_a.drop 32

section Rotations

variable {α : Type}

/-- `a[i]`; `mem` is in the cells that are not in the array. -/
def cellAt (mem : α) (a : List α) (i : Int) : α := if i < 0 then mem else a.getD i.toNat mem

/-! The loops of a rotation move cells and do not look at them: what leaves a half goes to
`temp`, both halves are shifted, and `temp` is put in where they have become free. -/

def saveLeft (mem : α) (data_a : List α) (time : Nat) (temp : List α) (i : Nat) : List α :=
  (temp.set i (cellAt mem data_a i)).set (time + i) (cellAt mem data_a (28 + i))

def shiftLeft (mem : α) (time : Nat) (data_a : List α) (i : Nat) : List α :=
  let data_a := data_a.set i (cellAt mem data_a (time + i))
  data_a.set (28 + i) (cellAt mem data_a (28 + time + i))

def restoreLeft (mem : α) (temp : List α) (time : Nat) (data_a : List α) (i : Nat) : List α :=
  (data_a.set (28 - time + i) (cellAt mem temp i)).set (56 - time + i) (cellAt mem temp (i + time))

def DES_ROL (mem : α) (data_a : List α) (time : Nat) : List α :=
  let temp := (List.range time).foldl (saveLeft mem data_a time) (List.replicate 56 mem)
  let data_a := (List.range (28 - time + 1)).foldl (shiftLeft mem time) data_a
  (List.range time).foldl (restoreLeft mem temp time) data_a

def saveRight (mem : α) (data_a : List α) (time : Nat) (temp : List α) (i : Nat) : List α :=
  (temp.set (time - 1 - i) (cellAt mem data_a (28 - 1 - i))).set (time + 1 - i) (cellAt mem data_a (56 - 1 - i))

def shiftRight (mem : α) (time : Nat) (data_a : List α) (i : Nat) : List α :=
  let data_a := data_a.set (27 - i) (cellAt mem data_a (27 - time - i))
  data_a.set (55 - i) (cellAt mem data_a (55 - time - i))

def restoreRight (mem : α) (temp : List α) (data_a : List α) (i : Nat) : List α :=
  (data_a.set i (cellAt mem temp i)).set (28 + i) (cellAt mem temp (i + 2))

def DES_ROR (mem : α) (data_a : List α) (time : Nat) : List α :=
  let temp := (List.range time).foldl (saveRight mem data_a time) (List.replicate 56 mem)
  let data_a := (List.range (28 - time + 1)).foldl (shiftRight mem time) data_a
  (List.range time).foldl (restoreRight mem temp) data_a

end Rotations

def S : List (List (List UInt8)) :=
  [[[14, 4, 13, 1, 2, 15, 11, 8, 3, 10, 6, 12, 5, 9, 0, 7],
     [0, 15, 7, 4, 14, 2, 13, 1, 10, 6, 12, 11, 9, 5, 3, 8],
     [4, 1, 14, 8, 13, 6, 2, 11, 15, 12, 9, 7, 3, 10, 5, 0],
     [15, 12, 8, 2, 4, 9, 1, 7, 5, 11, 3, 14, 10, 0, 6, 13]],
    [[15, 1, 8, 14, 6, 11, 3, 4, 9, 7, 2, 13, 12, 0, 5, 10],
     [3, 13, 4, 7, 15, 2, 8, 14, 12, 0, 1, 10, 6, 9, 11, 5],
     [0, 14, 7, 11, 10, 4, 13, 1, 5, 8, 12, 6, 9, 3, 2, 15],
     [13, 8, 10, 1, 3, 15, 4, 2, 11, 6, 7, 12, 0, 5, 14, 9]],
    [[10, 0, 9, 14, 6, 3, 15, 5, 1, 13, 12, 7, 11, 4, 2, 8],
     [13, 7, 0, 9, 3, 4, 6, 10, 2, 8, 5, 14, 12, 11, 15, 1],
     [13, 6, 4, 9, 8, 15, 3, 0, 11, 1, 2, 12, 5, 10, 14, 7],
     [1, 10, 13, 0, 6, 9, 8, 7, 4, 15, 14, 3, 11, 5, 2, 12]],
    [[7, 13, 14, 3, 0, 6, 9, 10, 1, 2, 8, 5, 11, 12, 4, 15],
     [13, 8, 11, 5, 6, 15, 0, 3, 4, 7, 2, 12, 1, 10, 14, 9],
     [10, 6, 9, 0, 12, 11, 7, 13, 15, 1, 3, 14, 5, 2, 8, 4],
     [3, 15, 0, 6, 10, 1, 13, 8, 9, 4, 5, 11, 12, 7, 2, 14]]]

def S1 : List (List (List UInt8)) :=
  [[[2, 12, 4, 1, 7, 10, 11, 6, 8, 5, 3, 15, 13, 0, 14, 9],
     [14, 11, 2, 12, 4, 7, 13, 1, 5, 0, 15, 10, 3, 9, 8, 6],
     [4, 2, 1, 11, 10, 13, 7, 8, 15, 9, 12, 5, 6, 3, 0, 14],
     [11, 8, 12, 7, 1, 14, 2, 13, 6, 15, 0, 9, 10, 4, 5, 3]],
    [[12, 1, 10, 15, 9, 2, 6, 8, 0, 13, 3, 4, 14, 7, 5, 11],
     [10, 15, 4, 2, 7, 12, 9, 5, 6, 1, 13, 14, 0, 11, 3, 8],
     [9, 14, 15, 5, 2, 8, 12, 3, 7, 0, 4, 10, 1, 13, 11, 6],
     [4, 3, 2, 12, 9, 5, 15, 10, 11, 14, 1, 7, 6, 0, 8, 13]],
    [[4, 11, 2, 14, 15, 0, 8, 13, 3, 12, 9, 7, 5, 10, 6, 1],
     [13, 0, 11, 7, 4, 9, 1, 10, 14, 3, 5, 12, 2, 15, 8, 6],
     [1, 4, 11, 13, 12, 3, 7, 14, 10, 15, 6, 8, 0, 5, 9, 2],
     [6, 11, 13, 8, 1, 4, 10, 7, 9, 5, 0, 15, 14, 2, 3, 12]],
    [[13, 2, 8, 4, 6, 15, 11, 1, 10, 9, 3, 14, 5, 0, 12, 7],
     [1, 15, 13, 8, 10, 3, 7, 4, 12, 5, 6, 11, 0, 14, 9, 2],
     [7, 11, 4, 1, 9, 12, 14, 2, 0, 6, 10, 13, 15, 3, 5, 8],
     [2, 1, 14, 7, 4, 10, 8, 13, 15, 12, 9, 0, 3, 5, 6, 11]]]

/-- `R[cnt] ^= L[cnt]` for the first `count` cells. -/
def DES_XOR (R L : List UInt8) (count : Nat) : List UInt8 :=
  R.mapIdx fun cnt r => if cnt < count then r ^^^ L.getD cnt 0 else r

/-- One of the eight boxes: six bits are read and four are written, in the same array. -/
def sboxTurn (data_a : List UInt8) (cnt : Nat) : List UInt8 :=
  let cur1 := cnt * 6
  let cur2 := cnt <<< 2
  let lines := (data_a.getD cur1 0 <<< 1) + data_a.getD (cur1 + 5) 0
  let row := (data_a.getD (cur1 + 1) 0 <<< 3) + (data_a.getD (cur1 + 2) 0 <<< 2) + (data_a.getD (cur1 + 3) 0 <<< 1) +
    data_a.getD (cur1 + 4) 0
  let output :=
    if cnt < 4 then ((S.getD cnt []).getD lines.toNat []).getD row.toNat 0
    else ((S1.getD (cnt - 4) []).getD lines.toNat []).getD row.toNat 0
  (((data_a.set cur2 ((output &&& 0x08) >>> 3)).set (cur2 + 1) ((output &&& 0x04) >>> 2)).set (cur2 + 2)
    ((output &&& 0x02) >>> 1)).set (cur2 + 3) (output &&& 0x01)

def DES_SBOX (data_a : List UInt8) : List UInt8 := (List.range 8).foldl sboxTurn data_a

/-- The halves of 64 bits. -/
def DES_Swap (bits : List UInt8) : List UInt8 := bits.drop 32 ++ bits.take 32

/-- What both loops do to the bits with the sub-key of a round, before the swap. -/
def mixHalves (subKeys bits : List UInt8) : List UInt8 :=
  let copyRight := bits.drop 32
  let copyRight := DES_E_Transform copyRight
  let copyRight := DES_XOR copyRight subKeys 48
  let copyRight := DES_SBOX copyRight
  let copyRight := DES_P_Transform copyRight
  DES_XOR bits copyRight 32

/-- The loop over the rounds; `rotate` is what a round does to the bits of the key first. -/
def desLoop (rotate : Nat → List UInt8 → List UInt8) : List Nat → List UInt8 → List UInt8 → List UInt8
  | [], _, bits => bits
  | cnt :: cnts, temp, bits =>
    let temp := rotate cnt temp
    let subKeys := DES_PC2_Transform temp
    let bits := mixHalves subKeys bits
    desLoop rotate cnts temp (if cnt ≠ 15 then DES_Swap bits else bits)

def encryptMoves : List Nat := [1, 1, 2, 2, 2, 2, 2, 2, 1, 2, 2, 2, 2, 2, 2, 1]

def encryptRotate (mem : Nat → UInt8) (cnt : Nat) (temp : List UInt8) : List UInt8 :=
  DES_ROL (mem cnt) temp (encryptMoves.getD cnt 0)

/-- `mem` is what is beside the bits of the key in each round. -/
def encrypt_des (mem : Nat → UInt8) (inoutdata keyStr : List UInt8) : List UInt8 :=
  let temp := DES_PC1_Transform (Char8ToBit64 keyStr)
  let plainBits := DES_IP_Transform (Char8ToBit64 inoutdata)
  Bit64ToChar8 (DES_IP_1_Transform (desLoop (encryptRotate mem) (List.range 16) temp plainBits))

def decryptMoves : List Nat := [0, 1, 2, 2, 2, 2, 2, 2, 1, 2, 2, 2, 2, 2, 2, 1]

def decryptRotate (mem : Nat → UInt8) (cnt : Nat) (temp : List UInt8) : List UInt8 :=
  if cnt ≠ 0 then DES_ROR (mem cnt) temp (decryptMoves.getD cnt 0) else temp

def decrypt_des (mem : Nat → UInt8) (inoutdata keyStr : List UInt8) : List UInt8 :=
  let temp := DES_PC1_Transform (Char8ToBit64 keyStr)
  let cipherBits := DES_IP_Transform (Char8ToBit64 inoutdata)
  Bit64ToChar8 (DES_IP_1_Transform (desLoop (decryptRotate mem) (List.range 16) temp cipherBits))

end Perception.Comm
