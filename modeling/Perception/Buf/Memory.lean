import Perception.Buf.SmartBuffer
import Perception.Lib.Block

/-!
# The memory of a `CSmartBuffer`

The operations on the allocated block, with their `int`s. An operation has no result where it
reads or writes outside the block, where an `int` overflows, and where `new` is asked for a
negative number of bytes.
-/
namespace Perception.Buf

set_option autoImplicit false

open Perception.Lib

/-- `buffer` is none for NULL. -/
structure CSmartBuffer where
  step_size : Int
  allocated_size : Int
  data_size : Int
  buffer : Option (List UInt8)

/-- The value of an expression of type `int`. -/
def int (n : Int) : Option Int := if -2147483648 ≤ n ∧ n ≤ 2147483647 then some n else none

/-- `memcpy` inside a block. The destination is the beginning of the block in all calls. Where the
two regions overlap the result is not defined: `moved block src n k` is the byte at place `k` then. -/
def memcpy (moved : List UInt8 → Nat → Nat → Nat → UInt8) (block : List UInt8) (src n : Int) : Option (List UInt8) := do
  let bytes ← Block.load block src n
  Block.store block 0 (if n ≤ src then bytes else (List.range n.toNat).map (moved block src.toNat n.toNat))

/-- Overlapping regions as `memmove` moves them. -/
def memmove (block : List UInt8) (src _n k : Nat) : UInt8 := block.getD (src + k) 0

namespace CSmartBuffer

def Error : Int := -1

/-- `CSmartBuffer(int step_size)`. -/
def new (step_size : Int32) : CSmartBuffer := ⟨step_size.toInt, 0, 0, none⟩

/-- `CSmartBuffer(int allocated_size, int step_size)`. -/
def newAllocated (allocated_size step_size : Int32) : Option CSmartBuffer :=
  if allocated_size.toInt < 0 then none
  else some ⟨step_size.toInt, allocated_size.toInt, 0, some (List.replicate allocated_size.toInt.toNat 0)⟩

/-- The bytes that `buffer` points to. -/
def block (s : CSmartBuffer) : List UInt8 := s.buffer.getD []

/-- The buffer after a write into its block. -/
def written (s : CSmartBuffer) (block : List UInt8) (data_size : Int) : CSmartBuffer :=
  { s with data_size, buffer := s.buffer.map fun _ => block }

/-- The new block of `append`, with the bytes of the old one. -/
def reallocated (s : CSmartBuffer) (new_allocated_size : Int) : Option (List UInt8) :=
  if new_allocated_size < 0 then none
  else
    let temp_buffer := List.replicate new_allocated_size.toNat 0
    if 0 < s.data_size then (Block.load s.block 0 s.data_size).bind fun bytes => Block.store temp_buffer 0 bytes
    else some temp_buffer

/-- The first part of `append`: a new block when the bytes do not fit. -/
def grow (s : CSmartBuffer) (len : Int) : Option CSmartBuffer := do
  let size ← int (s.data_size + len)
  if s.allocated_size < size then do
    let new_allocated_size ← int (size + s.step_size)
    let temp_buffer ← s.reallocated new_allocated_size
    some { s with allocated_size := new_allocated_size, buffer := some temp_buffer }
  else some s

/-- `buf` is what the caller has at its pointer. -/
def append (s : CSmartBuffer) (buf : Nat → UInt8) (len : Int) : Option CSmartBuffer := do
  let s ← s.grow len
  let block ← Block.store s.block s.data_size ((List.range len.toNat).map buf)
  let data_size ← int (s.data_size + len)
  some (s.written block data_size)

def empty (s : CSmartBuffer) : CSmartBuffer := { s with allocated_size := 0, data_size := 0, buffer := none }

def data (s : CSmartBuffer) (buf : Nat → UInt8) (len : Int) : Option CSmartBuffer := s.empty.append buf len

/-- The loop of `find(char&)`, from index `i` on and with `n` turns to go. -/
def findLoop (block : List UInt8) (value : UInt8) : Nat → Int → Option Int
  | 0, _ => some (-1)
  | n + 1, i => do
    let b ← Block.peek block i
    if value = b then some i else findLoop block value n (i + 1)

def find (s : CSmartBuffer) (value : UInt8) : Option Int := findLoop s.block value s.data_size.toNat 0

/-- The loop of `find(const void*, int, int)`. -/
def searchLoop (block : List UInt8) (search_for : Nat → UInt8) (length : Int) : Nat → Int → Option Int
  | 0, _ => some Error
  | n + 1, i => do
    let b ← Block.peek block i
    if search_for 0 ≠ b then searchLoop block search_for length n (i + 1)
    else do
      let bytes ← Block.load block i length
      if (List.range length.toNat).map search_for = bytes then some i
      else searchLoop block search_for length n (i + 1)

def findData (s : CSmartBuffer) (search_for : Nat → UInt8) (length from_index : Int) : Option Int :=
  if length ≤ 0 ∨ s.data_size ≤ from_index ∨ s.data_size < length then some Error
  else
    let search_depth := s.data_size - length
    searchLoop s.block search_for length (search_depth + 1 - from_index).toNat from_index

def truncate (moved : List UInt8 → Nat → Nat → Nat → UInt8) (s : CSmartBuffer) (length : Int) : Option CSmartBuffer :=
  if s.data_size < length then some s.empty
  else do
    let left ← int (s.data_size - length)
    let block ← memcpy moved s.block length left
    some (s.written block left)

/-- The part of `substr` that sets what is left of the contents to zero. -/
def zeroed (block : List UInt8) (nLen right : Int) : Option (List UInt8) :=
  if 0 < right then Block.store block nLen (List.replicate right.toNat 0) else some block

def substr (moved : List UInt8 → Nat → Nat → Nat → UInt8) (s : CSmartBuffer) (nStartIndex nEndIndex : Int) :
    Option CSmartBuffer :=
  if 0 > nStartIndex ∨ 0 > nEndIndex ∨ nEndIndex < nStartIndex then some s
  else do
    let nLen ← int (nEndIndex - nStartIndex + 1)
    if s.data_size > nLen then do
      let block ← memcpy moved s.block nStartIndex nLen
      let block ← zeroed block nLen (s.data_size - nLen)
      some (s.written block nLen)
    else some s

/-- The byte at an index; none for `false`. -/
def atIndex (s : CSmartBuffer) (index : Int) : Option (Option UInt8) :=
  if index < 0 ∨ s.data_size ≤ index then some none else (Block.peek s.block index).map some

end CSmartBuffer

/-- The lengths of what is appended are not negative; the other arguments are any `int`. -/
inductive Op where
  | append (buf : Nat → UInt8) (len : Nat)
  | data (buf : Nat → UInt8) (len : Nat)
  | empty
  | truncate (length : Int32)
  | substr (nStartIndex nEndIndex : Int32)
  | find (value : UInt8)
  | findData (search_for : Nat → UInt8) (length from_index : Int32)
  | atIndex (index : Int32)

inductive Result where
  | nothing
  | index (i : Int)
  | byte (value : Option UInt8)
deriving DecidableEq

namespace CSmartBuffer

/-- A call and what it returns. -/
def exec (moved : List UInt8 → Nat → Nat → Nat → UInt8) (s : CSmartBuffer) : Op → Option (CSmartBuffer × Result)
  | .append buf len => (s.append buf len).map (·, .nothing)
  | .data buf len => (s.data buf len).map (·, .nothing)
  | .empty => some (s.empty, .nothing)
  | .truncate length => (s.truncate moved length.toInt).map (·, .nothing)
  | .substr nStartIndex nEndIndex => (s.substr moved nStartIndex.toInt nEndIndex.toInt).map (·, .nothing)
  | .find value => (s.find value).map fun i => (s, .index i)
  | .findData search_for length from_index =>
    (s.findData search_for length.toInt from_index.toInt).map fun i => (s, .index i)
  | .atIndex index => (s.atIndex index.toInt).map fun b => (s, .byte b)

def step (moved : List UInt8 → Nat → Nat → Nat → UInt8) (s : CSmartBuffer) (op : Op) : Option CSmartBuffer :=
  (s.exec moved op).map Prod.fst

end CSmartBuffer

end Perception.Buf
