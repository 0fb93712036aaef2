import Perception.Buf.Memory
import Perception.Lib.History

/-!
# The buffer as a list of bytes

What an operation leaves in the block and returns, against the same operation on the list of the
contents. Arguments that do not fit the contents are where the two part: a negative place is read
in front of the block, and a range that begins inside and ends behind the contents takes what an
earlier content has left there.
-/
namespace Perception.Buf

set_option autoImplicit false

open Perception.Lib Perception.Lib.History

/-- The place of the first match that is not before `from_index`, or -1. -/
def firstMatch (contents pattern : List UInt8) (from_index : Int) : Int :=
  match (List.range contents.length).find? fun i : Nat =>
      decide (from_index ≤ i) && pattern.isPrefixOf (contents.drop i) with
  | some i => i
  | none => -1

/-- The bytes that the caller has at its pointer. -/
def bytesAt (buf : Nat → UInt8) (len : Int) : List UInt8 := (List.range len.toNat).map buf

/-- An empty pattern is not searched, and a range that is not one leaves the contents. -/
def listExec (contents : List UInt8) : Op → List UInt8 × Result
  | .append buf len => (contents ++ bytesAt buf len, .nothing)
  | .data buf len => (bytesAt buf len, .nothing)
  | .empty => ([], .nothing)
  | .truncate length => (SmartBuffer.truncate contents length.toInt.toNat, .nothing)
  | .substr nStartIndex nEndIndex =>
    (if 0 ≤ nStartIndex.toInt ∧ nStartIndex.toInt ≤ nEndIndex.toInt then
      (contents.drop nStartIndex.toInt.toNat).take (nEndIndex.toInt - nStartIndex.toInt + 1).toNat
    else contents, .nothing)
  | .find value => (contents, .index (match SmartBuffer.find contents value with | some i => i | none => -1))
  | .findData search_for length from_index =>
    (contents, .index (if length.toInt ≤ 0 then -1
      else firstMatch contents (bytesAt search_for length.toInt) from_index.toInt))
  | .atIndex index => (contents, .byte (if 0 ≤ index.toInt then contents[index.toInt.toNat]? else none))

namespace CSmartBuffer

def contents (s : CSmartBuffer) : List UInt8 := s.block.take s.data_size.toNat

structure Inv (s : CSmartBuffer) : Prop where
  nonneg : 0 ≤ s.data_size
  le_allocated : s.data_size ≤ s.allocated_size
  allocated_int : s.allocated_size ≤ 2147483647
  length_block : (s.block.length : Int) = s.allocated_size

/-- A call stays inside the block and does what it does on the list. -/
def Refines (moved : List UInt8 → Nat → Nat → Nat → UInt8) (s : CSmartBuffer) (op : Op) : Prop :=
  ∃ s' r, s.exec moved op = some (s', r) ∧ s'.Inv ∧ (s'.contents, r) = listExec s.contents op

/-- `memcpy` moves `n` bytes to the beginning: the regions do not overlap, or their bytes are moved
as `memmove` does. -/
def Moves (moved : List UInt8 → Nat → Nat → Nat → UInt8) (block : List UInt8) (src n : Nat) : Prop :=
  n ≤ src ∨ ∀ k < n, block[src + k]? = some (moved block src n k)

/-- The bytes are in the block, or in a new one that is large enough. -/
def Room (s : CSmartBuffer) (len : Int) : Prop :=
  s.data_size + len ≤ s.allocated_size ∨ 0 ≤ s.step_size ∧ s.data_size + len + s.step_size ≤ 2147483647

/-- The arguments with which a call does what it does on the list. -/
def Fits (moved : List UInt8 → Nat → Nat → Nat → UInt8) (s : CSmartBuffer) : Op → Prop
  | .append _ len => s.Room len
  | .data _ len => s.empty.Room len
  | .empty => True
  | .truncate length =>
    s.data_size < length.toInt ∨
      0 ≤ length.toInt ∧ Moves moved s.block length.toInt.toNat (s.data_size - length.toInt).toNat
  | .substr nStartIndex nEndIndex =>
    0 ≤ nStartIndex.toInt → nStartIndex.toInt ≤ nEndIndex.toInt →
      (nStartIndex.toInt = 0 ∧ nEndIndex.toInt < 2147483647 ∨ nEndIndex.toInt < s.data_size ∨
        s.data_size = 0 ∧ 0 < nStartIndex.toInt) ∧
      (nEndIndex.toInt - nStartIndex.toInt + 1 < s.data_size →
        Moves moved s.block nStartIndex.toInt.toNat (nEndIndex.toInt - nStartIndex.toInt + 1).toNat)
  | .find _ => True
  | .findData _ length from_index => 0 ≤ from_index.toInt ∨ length.toInt ≤ 0 ∨ s.data_size < length.toInt
  | .atIndex _ => True

variable {moved : List UInt8 → Nat → Nat → Nat → UInt8} {s s' : CSmartBuffer} {buf : Nat → UInt8} {len : Nat}

theorem length_bytesAt (buf : Nat → UInt8) (len : Int) : (bytesAt buf len).length = len.toNat := by
  rw [bytesAt, List.length_map, List.length_range]

theorem Inv.length_contents (h : s.Inv) : (s.contents.length : Int) = s.data_size := by
  obtain ⟨hnonneg, hle, -, hblock⟩ := h
  rw [contents, List.length_take]
  omega

theorem inv_new (step_size : Int32) : (new step_size).Inv := by
  have hmax : (0 : Int) ≤ 2147483647 := by decide
  exact ⟨Int.le_refl 0, Int.le_refl 0, hmax, rfl⟩

theorem inv_newAllocated {allocated_size step_size : Int32} (h : newAllocated allocated_size step_size = some s) :
    s.Inv := by
  unfold newAllocated at h
  split at h
  · cases h
  · next hsize =>
    obtain rfl := Option.some.inj h
    have hlt := allocated_size.toInt_lt
    have hmax : allocated_size.toInt ≤ 2147483647 := by omega
    have hlen : ((List.replicate allocated_size.toInt.toNat (0 : UInt8)).length : Int) = allocated_size.toInt := by
      rw [List.length_replicate]
      omega
    exact ⟨Int.le_refl 0, Int.not_lt.mp hsize, hmax, hlen⟩

theorem inv_empty (s : CSmartBuffer) : s.empty.Inv := by
  have hmax : (0 : Int) ≤ 2147483647 := by decide
  exact ⟨Int.le_refl 0, Int.le_refl 0, hmax, rfl⟩

theorem contents_empty (s : CSmartBuffer) : s.empty.contents = [] := rfl

theorem int_eq_some {n m : Int} (h : int n = some m) : m = n ∧ -2147483648 ≤ n ∧ n ≤ 2147483647 := by
  unfold int at h
  split at h
  · next hin => exact ⟨(Option.some.inj h).symm, hin⟩
  · cases h

theorem int_of_le {n : Int} (hmin : -2147483648 ≤ n) (hmax : n ≤ 2147483647) : int n = some n := if_pos ⟨hmin, hmax⟩

@[simp] theorem data_size_written (s : CSmartBuffer) (block : List UInt8) (n : Int) :
    (s.written block n).data_size = n := rfl

@[simp] theorem allocated_size_written (s : CSmartBuffer) (block : List UInt8) (n : Int) :
    (s.written block n).allocated_size = s.allocated_size := rfl

theorem block_written {block : List UInt8} (h : block.length = s.block.length) (n : Int) :
    (s.written block n).block = block := by
  cases hbuffer : s.buffer with
  | none =>
    have hempty : s.block = [] := by
      rw [CSmartBuffer.block, hbuffer]
      rfl
    rw [hempty] at h
    obtain rfl := List.eq_nil_of_length_eq_zero h
    rw [CSmartBuffer.block, written, hbuffer]
    rfl
  | some b =>
    rw [CSmartBuffer.block, written, hbuffer]
    rfl

theorem Inv.written {block : List UInt8} {n : Int} (hs : s.Inv) (h : block.length = s.block.length) (hnonneg : 0 ≤ n)
    (hle : n ≤ s.allocated_size) : (s.written block n).Inv := by
  refine ⟨hnonneg, hle, hs.allocated_int, ?_⟩
  rw [block_written h, h]
  exact hs.length_block

theorem contents_written {block : List UInt8} (h : block.length = s.block.length) (n : Int) :
    (s.written block n).contents = block.take n.toNat := by
  rw [contents, block_written h, data_size_written]

theorem Inv.inside (hs : s.Inv) : Block.Inside s.block 0 s.data_size := by
  have hle := hs.le_allocated
  have hblock := hs.length_block
  refine ⟨Int.le_refl 0, hs.nonneg, ?_⟩
  omega

/-- The bytes of the old block at the beginning of a new one. -/
theorem reallocated_of_le {size : Int} (hs : s.Inv) (hle : s.data_size ≤ size) :
    s.reallocated size = some (s.contents ++ List.replicate (size - s.data_size).toNat 0) := by
  have hnonneg := hs.nonneg
  have hlen := hs.length_contents
  have hsize : ¬size < 0 := by omega
  unfold reallocated
  rw [if_neg hsize]
  by_cases hpos : 0 < s.data_size
  · have hload : Block.load s.block 0 s.data_size = some s.contents := Block.load_of_inside hs.inside
    have hin : Block.Inside (List.replicate size.toNat (0 : UInt8)) 0 s.contents.length := by
      refine ⟨Int.le_refl 0, Int.natCast_nonneg _, ?_⟩
      rw [List.length_replicate]
      omega
    have hrest : size.toNat - (Int.toNat 0 + s.contents.length) = (size - s.data_size).toNat := by
      have hzero : Int.toNat 0 = 0 := rfl
      omega
    simp only [if_pos hpos, hload, Option.bind_some, Block.store_of_inside hin]
    rw [List.drop_replicate, hrest]
    rfl
  · have hzero : s.data_size = 0 := by omega
    have hempty : s.contents = [] := List.eq_nil_of_length_eq_zero (by omega)
    simp only [if_neg hpos]
    rw [hempty, hzero, Int.sub_zero, List.nil_append]

theorem length_reallocated {size : Int} {block : List UInt8} (h : s.reallocated size = some block) :
    (block.length : Int) = size := by
  unfold reallocated at h
  split at h
  · cases h
  · next hsize =>
    have hlen : block.length = size.toNat := by
      dsimp only at h
      split at h
      · obtain ⟨bytes, -, hstore⟩ := Option.bind_eq_some_iff.mp h
        rw [Block.length_store hstore, List.length_replicate]
      · rw [← Option.some.inj h, List.length_replicate]
    omega

theorem grow_eq_some {s₁ : CSmartBuffer} (h : s.grow len = some s₁) :
    (s₁ = s ∧ s.data_size + len ≤ s.allocated_size) ∨
      s.data_size + len + s.step_size ≤ 2147483647 ∧ s₁.data_size = s.data_size ∧
        (s₁.block.length : Int) = s.data_size + len + s.step_size := by
  unfold grow at h
  simp only [Option.bind_eq_bind, Option.bind_eq_some_iff] at h
  obtain ⟨size, hsize, h⟩ := h
  obtain ⟨rfl, -⟩ := int_eq_some hsize
  split at h
  · obtain ⟨new_allocated_size, hnew, h⟩ := Option.bind_eq_some_iff.mp h
    obtain ⟨temp_buffer, htemp, h⟩ := Option.bind_eq_some_iff.mp h
    obtain ⟨rfl, -, hmax⟩ := int_eq_some hnew
    obtain rfl := Option.some.inj h
    exact .inr ⟨hmax, rfl, length_reallocated htemp⟩
  · next hfits => exact .inl ⟨(Option.some.inj h).symm, Int.not_lt.mp hfits⟩

theorem exists_grow (hs : s.Inv) (hroom : s.Room len) :
    ∃ s₁, s.grow len = some s₁ ∧ s₁.Inv ∧ s₁.data_size = s.data_size ∧ s₁.contents = s.contents ∧
      s.data_size + len ≤ s₁.allocated_size := by
  have hnonneg := hs.nonneg
  have hint := hs.allocated_int
  have hlen := hs.length_contents
  have hle := hs.le_allocated
  by_cases hfits : s.data_size + len ≤ s.allocated_size
  · have hsame : s.grow len = some s := by
      rw [grow, int_of_le (by omega) (by omega)]
      exact if_neg (Int.not_lt.mpr hfits)
    exact ⟨s, hsame, hs, rfl, rfl, hfits⟩
  · obtain ⟨hstep, hmax⟩ : 0 ≤ s.step_size ∧ s.data_size + len + s.step_size ≤ 2147483647 :=
      hroom.resolve_left hfits
    have hrealloc : s.reallocated (s.data_size + len + s.step_size) =
        some (s.contents ++ List.replicate (s.data_size + len + s.step_size - s.data_size).toNat 0) :=
      reallocated_of_le hs (by omega)
    generalize hblock : s.contents ++ List.replicate _ 0 = block at hrealloc
    have hgrow : s.grow len =
        some { s with allocated_size := s.data_size + len + s.step_size, buffer := some block } := by
      rw [grow, int_of_le (by omega) (by omega), Option.bind_eq_bind, Option.bind_some,
        if_pos (Int.not_le.mp hfits), int_of_le (by omega) hmax, Option.bind_eq_bind, Option.bind_some, hrealloc]
      rfl
    refine ⟨_, hgrow, ⟨hnonneg, ?_, hmax, length_reallocated hrealloc⟩, rfl, ?_, ?_⟩
    · change s.data_size ≤ s.data_size + len + s.step_size
      omega
    · change block.take s.data_size.toNat = s.contents
      have hnat : s.data_size.toNat = s.contents.length := by omega
      rw [← hblock, hnat, List.take_left]
    · change s.data_size + len ≤ s.data_size + len + s.step_size
      omega

/-- The bytes are stored behind the contents. -/
theorem append_of_room (hs : s.Inv) (hroom : s.Room len) :
    ∃ s', s.append buf len = some s' ∧ s'.Inv ∧ s'.contents = s.contents ++ bytesAt buf len := by
  obtain ⟨s₁, hgrow, hs₁, hsize, hcontents, hfits⟩ := exists_grow hs hroom
  have hnonneg := hs.nonneg
  have hint := hs₁.allocated_int
  have hblock := hs₁.length_block
  have hbytes := length_bytesAt buf len
  have hnat : (s.data_size.toNat : Int) = s.data_size := by omega
  have hin : Block.Inside s₁.block s.data_size (bytesAt buf len).length := ⟨hnonneg, Int.natCast_nonneg _, by omega⟩
  obtain ⟨block, hstore⟩ : ∃ block, Block.store s₁.block s.data_size (bytesAt buf len) = some block :=
    ⟨_, Block.store_of_inside hin⟩
  have happend : s.append buf len = some (s₁.written block (s.data_size + len)) := by
    have hstore' := hstore
    unfold bytesAt at hstore'
    rw [append, hgrow, Option.bind_eq_bind, Option.bind_some, hsize, hstore', Option.bind_eq_bind, Option.bind_some,
      int_of_le (by omega) (by omega)]
    rfl
  have hlength : block.length = s₁.block.length := Block.length_store hstore
  refine ⟨_, happend, hs₁.written hlength (by omega) (by omega), ?_⟩
  have hend : (s.data_size + len).toNat = s.data_size.toNat + (bytesAt buf len).length := by omega
  rw [← hnat] at hstore
  rw [contents_written hlength, hend, Block.take_store hstore, ← hcontents, contents, hsize]

theorem room_of_append (h : s.append buf len = some s') : s.Room len := by
  unfold append at h
  simp only [Option.bind_eq_bind, Option.bind_eq_some_iff] at h
  obtain ⟨s₁, hgrow, block, hstore, -⟩ := h
  rcases grow_eq_some hgrow with ⟨-, hfits⟩ | ⟨hmax, hsize, hblock⟩
  · exact .inl hfits
  · -- the store ends inside the new block, which is as long as the contents, the bytes and the step
    obtain ⟨⟨-, -, hin⟩, -⟩ := Block.store_eq_some hstore
    rw [List.length_map, List.length_range, hsize, hblock] at hin
    refine .inr ⟨?_, hmax⟩
    omega

theorem memcpy_eq_some {block block' : List UInt8} {src n : Int} (h : memcpy moved block src n = some block') :
    Block.Inside block src n ∧ block'.length = block.length ∧
      (block'.take n.toNat = (block.drop src.toNat).take n.toNat ↔ Moves moved block src.toNat n.toNat) := by
  unfold memcpy at h
  simp only [Option.bind_eq_bind, Option.bind_eq_some_iff] at h
  obtain ⟨bytes, hload, hstore⟩ := h
  have hin := Block.load_eq_some hload
  rw [Block.load_of_inside hin] at hload
  obtain rfl := Option.some.inj hload
  refine ⟨hin, Block.length_store hstore, ?_⟩
  obtain ⟨hsrc, hn, hle⟩ := hin
  have htake := Block.take_store_zero hstore
  by_cases hdisjoint : n ≤ src
  · have hlen : ((block.drop src.toNat).take n.toNat).length = n.toNat := by
      rw [List.length_take, List.length_drop]
      omega
    rw [if_pos hdisjoint, hlen] at htake
    apply iff_of_true htake
    left
    omega
  · rw [if_neg hdisjoint, List.length_map, List.length_range] at htake
    rw [htake, List.ext_getElem?_iff]
    constructor
    · intro h
      right
      intro k hk
      have hk' := h k
      rw [List.getElem?_map, List.getElem?_range hk, List.getElem?_take_of_lt hk, List.getElem?_drop] at hk'
      exact hk'.symm
    · intro h k
      have hmoves := h.resolve_left (by omega)
      by_cases hk : k < n.toNat
      · rw [List.getElem?_map, List.getElem?_range hk, List.getElem?_take_of_lt hk, List.getElem?_drop, hmoves k hk]
        rfl
      · rw [List.getElem?_eq_none (by rw [List.length_map, List.length_range]; omega), List.getElem?_eq_none]
        rw [List.length_take]
        omega

theorem exists_memcpy (moved : List UInt8 → Nat → Nat → Nat → UInt8) {block : List UInt8} {src n : Int}
    (h : Block.Inside block src n) :
    ∃ block', memcpy moved block src n = some block' := by
  obtain ⟨hsrc, hn, hle⟩ := h
  unfold memcpy
  rw [Block.load_of_inside ⟨hsrc, hn, hle⟩, Option.bind_eq_bind, Option.bind_some]
  refine ⟨_, Block.store_of_inside ⟨Int.le_refl 0, Int.natCast_nonneg _, ?_⟩⟩
  split
  · rw [List.length_take, List.length_drop]
    omega
  · rw [List.length_map, List.length_range]
    omega

theorem inv_memcpy {block : List UInt8} {src n : Int} (hs : s.Inv) (h : memcpy moved s.block src n = some block) :
    (s.written block n).Inv := by
  obtain ⟨⟨hsrc, hn, hle⟩, hlength, -⟩ := memcpy_eq_some h
  have hblock := hs.length_block
  exact hs.written hlength hn (by omega)

theorem truncate_eq_some {length : Int} (h : s.truncate moved length = some s') :
    s.data_size < length ∧ s' = s.empty ∨
      length ≤ s.data_size ∧ ∃ block, memcpy moved s.block length (s.data_size - length) = some block ∧
        s' = s.written block (s.data_size - length) := by
  unfold truncate at h
  split at h
  · next hlt => exact .inl ⟨hlt, (Option.some.inj h).symm⟩
  · next hle =>
    obtain ⟨left, hleft, h⟩ := Option.bind_eq_some_iff.mp h
    obtain ⟨rfl, -⟩ := int_eq_some hleft
    obtain ⟨block, hmove, h⟩ := Option.bind_eq_some_iff.mp h
    exact .inr ⟨Int.not_lt.mp hle, block, hmove, (Option.some.inj h).symm⟩

theorem refines_iff (op : Op) {result : Option CSmartBuffer} {bytes : List UInt8}
    (hexec : s.exec moved op = result.map (·, .nothing)) (hlist : listExec s.contents op = (bytes, .nothing)) :
    Refines moved s op ↔ ∃ s', result = some s' ∧ s'.Inv ∧ s'.contents = bytes := by
  unfold Refines
  rw [hexec, hlist]
  constructor
  · intro h
    obtain ⟨s', r, hresult, hinv, hpair⟩ := h
    obtain ⟨s'', hsome, heq⟩ := Option.map_eq_some_iff.mp hresult
    obtain ⟨rfl, -⟩ := Prod.mk.inj heq
    exact ⟨s'', hsome, hinv, congrArg Prod.fst hpair⟩
  · intro h
    obtain ⟨s', hsome, hinv, rfl⟩ := h
    refine ⟨s', .nothing, ?_, hinv, rfl⟩
    rw [hsome]
    rfl

theorem drop_contents (s : CSmartBuffer) (i : Nat) :
    s.contents.drop i = (s.block.drop i).take (s.data_size.toNat - i) := List.drop_take

theorem refines_truncate {length : Int32} (hs : s.Inv) :
    Refines moved s (.truncate length) ↔ Fits moved s (.truncate length) := by
  have hlen := hs.length_contents
  have hnonneg := hs.nonneg
  have hint := hs.allocated_int
  have hle := hs.le_allocated
  have hblock := hs.length_block
  rw [refines_iff (.truncate length) rfl rfl]
  have hdrop : length.toInt ≤ s.data_size → 0 ≤ length.toInt → SmartBuffer.truncate s.contents length.toInt.toNat =
      (s.block.drop length.toInt.toNat).take (s.data_size - length.toInt).toNat := by
    intro hsize hpos
    rw [SmartBuffer.truncate, if_neg (by omega), drop_contents]
    congr 1
    omega
  constructor
  · intro h
    obtain ⟨s', htruncate, hinv, hcontents⟩ := h
    rcases truncate_eq_some htruncate with ⟨hlt, -⟩ | ⟨hsize, block, hmove, rfl⟩
    · exact .inl hlt
    · obtain ⟨⟨hsrc, -⟩, hlength, hmoves⟩ := memcpy_eq_some hmove
      rw [contents_written hlength, hdrop hsize hsrc] at hcontents
      exact .inr ⟨hsrc, hmoves.mp hcontents⟩
  · intro h
    by_cases hlt : s.data_size < length.toInt
    · refine ⟨s.empty, if_pos hlt, inv_empty s, ?_⟩
      rw [SmartBuffer.truncate, if_pos (by omega), contents_empty]
    · obtain ⟨hsrc, hmoves⟩ := h.resolve_left hlt
      have hin : Block.Inside s.block length.toInt (s.data_size - length.toInt) := ⟨hsrc, by omega, by omega⟩
      obtain ⟨block, hmove⟩ := exists_memcpy moved hin
      obtain ⟨-, hlength, hmoved⟩ := memcpy_eq_some hmove
      have htruncate : s.truncate moved length.toInt = some (s.written block (s.data_size - length.toInt)) := by
        rw [truncate, if_neg hlt, int_of_le (by omega) (by omega), Option.bind_eq_bind, Option.bind_some, hmove]
        rfl
      refine ⟨_, htruncate, inv_memcpy hs hmove, ?_⟩
      rw [contents_written hlength, hdrop (by omega) hsrc]
      exact hmoved.mpr hmoves

theorem zeroed_eq_some {block block' : List UInt8} {k : Nat} {right : Int} (h : zeroed block k right = some block') :
    block'.length = block.length ∧ block'.take k = block.take k := by
  unfold zeroed at h
  split at h
  · exact ⟨Block.length_store h, Block.take_store_left h⟩
  · obtain rfl := Option.some.inj h
    exact ⟨rfl, rfl⟩

theorem exists_zeroed {block : List UInt8} {n right : Int} (h : Block.Inside block n right) :
    ∃ block', zeroed block n right = some block' := by
  unfold zeroed
  split
  · obtain ⟨hn, hright, hle⟩ := h
    refine ⟨_, Block.store_of_inside ⟨hn, Int.natCast_nonneg _, ?_⟩⟩
    rw [List.length_replicate]
    omega
  · exact ⟨block, rfl⟩

theorem substr_eq_some {i j : Int} (hi : 0 ≤ i) (hj : i ≤ j) (h : s.substr moved i j = some s') :
    j - i + 1 ≤ 2147483647 ∧
      (s.data_size ≤ j - i + 1 ∧ s' = s ∨
        j - i + 1 < s.data_size ∧
          ∃ block block', memcpy moved s.block i (j - i + 1) = some block ∧ block'.length = block.length ∧
            block'.take (j - i + 1).toNat = block.take (j - i + 1).toNat ∧ s' = s.written block' (j - i + 1)) := by
  have hrange : ¬(0 > i ∨ 0 > j ∨ j < i) := by omega
  rw [substr, if_neg hrange] at h
  obtain ⟨nLen, hnLen, h⟩ := Option.bind_eq_some_iff.mp h
  obtain ⟨rfl, -, hmax⟩ := int_eq_some hnLen
  refine ⟨hmax, ?_⟩
  split at h
  · next hlt =>
    obtain ⟨block, hmove, h⟩ := Option.bind_eq_some_iff.mp h
    obtain ⟨block', hclear, h⟩ := Option.bind_eq_some_iff.mp h
    have hnat : ((j - i + 1).toNat : Int) = j - i + 1 := by omega
    rw [← hnat] at hclear
    obtain ⟨hlength, htake⟩ := zeroed_eq_some hclear
    exact .inr ⟨hlt, block, block', hmove, hlength, htake, (Option.some.inj h).symm⟩
  · next hge => exact .inl ⟨Int.not_lt.mp hge, (Option.some.inj h).symm⟩

theorem exists_substr (moved : List UInt8 → Nat → Nat → Nat → UInt8) {i j : Int} (hs : s.Inv) (hi : 0 ≤ i)
    (hj : i ≤ j) (hmax : j - i + 1 ≤ 2147483647)
    (hin : j - i + 1 < s.data_size → j < s.data_size) : ∃ s', s.substr moved i j = some s' := by
  have hle := hs.le_allocated
  have hblock := hs.length_block
  have hrange : ¬(0 > i ∨ 0 > j ∨ j < i) := by omega
  rw [substr, if_neg hrange, int_of_le (by omega) hmax, Option.bind_eq_bind, Option.bind_some]
  split
  · next hlt =>
    have hsize := hin hlt
    have hin' : Block.Inside s.block i (j - i + 1) := ⟨hi, by omega, by omega⟩
    obtain ⟨block, hmove⟩ := exists_memcpy moved hin'
    obtain ⟨-, hlength, -⟩ := memcpy_eq_some hmove
    have hrest : Block.Inside block (j - i + 1) (s.data_size - (j - i + 1)) := ⟨by omega, by omega, by omega⟩
    obtain ⟨block', hclear⟩ := exists_zeroed hrest
    rw [hmove, Option.bind_eq_bind, Option.bind_some, hclear]
    exact ⟨_, rfl⟩
  · exact ⟨s, rfl⟩

theorem inv_substr {i j : Int} (hs : s.Inv) (h : s.substr moved i j = some s') : s'.Inv := by
  by_cases hrange : 0 > i ∨ 0 > j ∨ j < i
  · rw [substr, if_pos hrange] at h
    obtain rfl := Option.some.inj h
    exact hs
  · rcases (substr_eq_some (by omega) (by omega) h).2 with ⟨-, rfl⟩ | ⟨hlt, block, block', hmove, hlength, -, rfl⟩
    · exact hs
    · obtain ⟨-, hlength', -⟩ := memcpy_eq_some hmove
      have hle := hs.le_allocated
      exact hs.written (hlength.trans hlength') (by omega) (by omega)

/-- A range that is longer than the contents leaves them; a shorter one has to end inside. -/
theorem contents_substr {i j : Int} (hs : s.Inv) (hi : 0 ≤ i) (hj : i ≤ j) (h : s.substr moved i j = some s') :
    s'.contents = (s.contents.drop i.toNat).take (j - i + 1).toNat ↔
      (s.data_size ≤ j - i + 1 → i = 0 ∨ s.data_size = 0) ∧
        (j - i + 1 < s.data_size → j < s.data_size ∧ Moves moved s.block i.toNat (j - i + 1).toNat) := by
  have hlen := hs.length_contents
  have hle := hs.le_allocated
  have hblock := hs.length_block
  rcases (substr_eq_some hi hj h).2 with ⟨hge, hsame⟩ | ⟨hlt, block, block', hmove, hlength, htake, rfl⟩
  · have hshort : (s.contents.drop i.toNat).length ≤ (j - i + 1).toNat := by
      rw [List.length_drop]
      omega
    rw [hsame, List.take_of_length_le hshort]
    constructor
    · intro heq
      have hlengths := congrArg List.length heq
      rw [List.length_drop] at hlengths
      refine ⟨fun _ => ?_, fun hlt => ?_⟩
      · omega
      · omega
    · intro hcond
      rcases hcond.1 hge with rfl | hzero
      · rfl
      · have hempty : s.contents = [] := List.eq_nil_of_length_eq_zero (by omega)
        rw [hempty, List.drop_nil]
  · obtain ⟨hin, hlength', hmoves⟩ := memcpy_eq_some hmove
    rw [contents_written (hlength.trans hlength'), htake]
    have hpart : j < s.data_size → (s.contents.drop i.toNat).take (j - i + 1).toNat =
        (s.block.drop i.toNat).take (j - i + 1).toNat := by
      intro hsize
      rw [drop_contents, List.take_take, Nat.min_eq_left (by omega)]
    constructor
    · intro heq
      have hlengths := congrArg List.length heq
      rw [List.length_take, List.length_take, List.length_drop] at hlengths
      have hsize : j < s.data_size := by omega
      rw [hpart hsize] at heq
      refine ⟨fun hge => ?_, fun _ => ⟨hsize, hmoves.mp heq⟩⟩
      omega
    · intro hcond
      obtain ⟨hsize, hmove'⟩ := hcond.2 hlt
      rw [hpart hsize]
      exact hmoves.mpr hmove'

theorem refines_substr {nStartIndex nEndIndex : Int32} (hs : s.Inv) :
    Refines moved s (.substr nStartIndex nEndIndex) ↔ Fits moved s (.substr nStartIndex nEndIndex) := by
  rw [refines_iff (.substr nStartIndex nEndIndex) rfl rfl]
  dsimp only [Fits]
  have hint := nEndIndex.toInt_lt
  generalize nStartIndex.toInt = i
  generalize nEndIndex.toInt = j at hint ⊢
  by_cases hrange : 0 ≤ i ∧ i ≤ j
  · obtain ⟨hi, hij⟩ := hrange
    have hnonneg := hs.nonneg
    have hle := hs.le_allocated
    have hmax := hs.allocated_int
    rw [if_pos ⟨hi, hij⟩]
    constructor
    · intro h _ _
      obtain ⟨s', hsubstr, -, hcontents⟩ := h
      have hnLen := (substr_eq_some hi hij hsubstr).1
      obtain ⟨hlong, hshort⟩ := (contents_substr hs hi hij hsubstr).mp hcontents
      refine ⟨?_, fun hlt => (hshort hlt).2⟩
      by_cases hlt : j - i + 1 < s.data_size
      · exact .inr (.inl (hshort hlt).1)
      · rcases hlong (Int.not_lt.mp hlt) with hzero | hzero
        · exact .inl ⟨hzero, by omega⟩
        · by_cases hfirst : i = 0
          · exact .inl ⟨hfirst, by omega⟩
          · exact .inr (.inr ⟨hzero, by omega⟩)
    · intro h
      obtain ⟨hcase, hmoves⟩ := h hi hij
      have hnLen : j - i + 1 ≤ 2147483647 := by omega
      obtain ⟨s', hsubstr⟩ := exists_substr moved hs hi hij hnLen (by omega)
      refine ⟨s', hsubstr, inv_substr hs hsubstr, (contents_substr hs hi hij hsubstr).mpr ⟨?_, ?_⟩⟩
      · intro hlong
        omega
      · intro hlt
        exact ⟨by omega, hmoves hlt⟩
  · have hnoop : 0 > i ∨ 0 > j ∨ j < i := by omega
    rw [if_neg hrange]
    apply iff_of_true
    · exact ⟨s, if_pos hnoop, hs, rfl⟩
    · intro hi hij
      exact absurd ⟨hi, hij⟩ hrange

theorem findLoop_eq (block : List UInt8) (value : UInt8) (n i : Nat) (h : i + n ≤ block.length) :
    findLoop block value n i =
      some (match SmartBuffer.find ((block.drop i).take n) value with | some j => (i + j : Nat) | none => -1) := by
  induction n generalizing i with
  | zero => rfl
  | succ n ih =>
    have hlt : i < block.length := by omega
    rw [findLoop, Block.peek_of_lt hlt, Option.bind_eq_bind, Option.bind_some, List.drop_eq_getElem_cons hlt,
      List.take_succ_cons, SmartBuffer.find, List.findIdx?_cons]
    by_cases hvalue : value = block[i]
    · rw [if_pos hvalue, if_pos (beq_iff_eq.mpr hvalue)]
      rfl
    · have hbeq : ¬(value == block[i]) = true := fun he => hvalue (beq_iff_eq.mp he)
      have hnext : (i : Int) + 1 = (i + 1 : Nat) := rfl
      rw [if_neg hvalue, if_neg hbeq, hnext, ih (i + 1) (by omega), SmartBuffer.find]
      cases (List.take n (List.drop (i + 1) block)).findIdx? fun b => value == b with
      | none => rfl
      | some j =>
        have hplace : i + 1 + j = i + (j + 1) := by omega
        simp only [Option.map_some, hplace]

theorem find_eq {value : UInt8} (hs : s.Inv) :
    s.find value = some (match SmartBuffer.find s.contents value with | some i => i | none => -1) := by
  have hle := hs.le_allocated
  have hblock := hs.length_block
  have hnonneg := hs.nonneg
  have hfind := findLoop_eq s.block value s.data_size.toNat 0 (by omega)
  rw [List.drop_zero] at hfind
  unfold find
  simp only [Nat.zero_add] at hfind
  exact hfind

/-- The pattern is at a place. -/
def MatchAt (block : List UInt8) (search_for : Nat → UInt8) (length : Int) (i : Nat) : Prop :=
  bytesAt search_for length = (block.drop i).take length.toNat

/-- The loop ends at the first match. -/
theorem searchLoop_spec (block : List UInt8) (search_for : Nat → UInt8) {length : Int} (hlength : 0 < length)
    (n i : Nat) (h : n = 0 ∨ (i + n : Nat) + length ≤ block.length + 1) :
    (∃ j, i ≤ j ∧ j < i + n ∧ MatchAt block search_for length j ∧
        (∀ k, i ≤ k → k < j → ¬MatchAt block search_for length k) ∧
        searchLoop block search_for length n i = some (j : Int)) ∨
      (∀ k, i ≤ k → k < i + n → ¬MatchAt block search_for length k) ∧
        searchLoop block search_for length n i = some Error := by
  induction n generalizing i with
  | zero =>
    right
    exact ⟨fun k hik hk => by omega, rfl⟩
  | succ n ih =>
    have hlt : i < block.length := by omega
    have hin : Block.Inside block i length := ⟨Int.natCast_nonneg i, by omega, by omega⟩
    have hload := Block.load_of_inside hin
    have hnext : (i : Int) + 1 = (i + 1 : Nat) := rfl
    -- where the pattern is not at this place, the search goes on behind it
    have hgo : ¬MatchAt block search_for length i →
        searchLoop block search_for length (n + 1) i = searchLoop block search_for length n (i + 1 : Nat) →
          (∃ j, i ≤ j ∧ j < i + (n + 1) ∧ MatchAt block search_for length j ∧
            (∀ k, i ≤ k → k < j → ¬MatchAt block search_for length k) ∧
            searchLoop block search_for length (n + 1) i = some (j : Int)) ∨
          (∀ k, i ≤ k → k < i + (n + 1) → ¬MatchAt block search_for length k) ∧
            searchLoop block search_for length (n + 1) i = some Error := by
      intro hnot hloop
      have hnotUpTo : ∀ m, (∀ k, i + 1 ≤ k → k < m → ¬MatchAt block search_for length k) →
          ∀ k, i ≤ k → k < m → ¬MatchAt block search_for length k := by
        intro m hrest k hik hk
        rcases Nat.eq_or_lt_of_le hik with rfl | hgt
        · exact hnot
        · exact hrest k hgt hk
      rw [hloop]
      rcases ih (i + 1) (by omega) with ⟨j, hij, hj, hmatch, hfirst, hresult⟩ | ⟨hnone, hresult⟩
      · exact .inl ⟨j, by omega, by omega, hmatch, hnotUpTo j hfirst, hresult⟩
      · refine .inr ⟨hnotUpTo _ fun k hik hk => hnone k hik (by omega), hresult⟩
    by_cases hfirst : search_for 0 ≠ block[i]
    · apply hgo
      · intro hmatch
        unfold MatchAt bytesAt at hmatch
        have hzero := congrArg (·[0]?) hmatch
        rw [List.getElem?_map, List.getElem?_range (by omega), List.getElem?_take_of_lt (by omega), List.getElem?_drop,
          Nat.add_zero, List.getElem?_eq_getElem hlt] at hzero
        exact hfirst (Option.some.inj hzero)
      · rw [searchLoop, Block.peek_of_lt hlt, Option.bind_eq_bind, Option.bind_some, if_pos hfirst, hnext]
    · by_cases hmatch : MatchAt block search_for length i
      · refine .inl ⟨i, Nat.le_refl i, by omega, hmatch, fun k hik hk => by omega, ?_⟩
        rw [searchLoop, Block.peek_of_lt hlt, Option.bind_eq_bind, Option.bind_some, if_neg hfirst, hload,
          Option.bind_eq_bind, Option.bind_some]
        exact if_pos hmatch
      · apply hgo hmatch
        rw [searchLoop, Block.peek_of_lt hlt, Option.bind_eq_bind, Option.bind_some, if_neg hfirst, hload,
          Option.bind_eq_bind, Option.bind_some, hnext]
        exact if_neg hmatch

theorem firstMatch_eq {contents pattern : List UInt8} {from_index : Int} {j : Nat} (hj : j < contents.length)
    (hfrom : from_index ≤ j) (hmatch : pattern.isPrefixOf (contents.drop j) = true)
    (hfirst : ∀ k : Nat, from_index ≤ k → k < j → ¬pattern.isPrefixOf (contents.drop k) = true) :
    firstMatch contents pattern from_index = j := by
  have hfind : (List.range contents.length).find?
      (fun i : Nat => decide (from_index ≤ i) && pattern.isPrefixOf (contents.drop i)) = some j := by
    rw [List.find?_range_eq_some]
    refine ⟨?_, List.mem_range.mpr hj, fun k hk => ?_⟩
    · rw [Bool.and_eq_true, decide_eq_true_eq]
      exact ⟨hfrom, hmatch⟩
    · rw [Bool.not_eq_true', Bool.and_eq_false_imp, decide_eq_true_eq]
      intro hk'
      exact Bool.not_eq_true _ ▸ hfirst k hk' hk
  rw [firstMatch, hfind]

theorem firstMatch_eq_neg_one {contents pattern : List UInt8} {from_index : Int}
    (hnone : ∀ k : Nat, k < contents.length → from_index ≤ k → ¬pattern.isPrefixOf (contents.drop k) = true) :
    firstMatch contents pattern from_index = -1 := by
  have hfind : (List.range contents.length).find?
      (fun i : Nat => decide (from_index ≤ i) && pattern.isPrefixOf (contents.drop i)) = none := by
    rw [List.find?_range_eq_none]
    intro k hk
    rw [Bool.not_eq_true', Bool.and_eq_false_imp, decide_eq_true_eq]
    intro hk'
    exact Bool.not_eq_true _ ▸ hnone k hk hk'
  rw [firstMatch, hfind]

theorem isPrefixOf_contents {search_for : Nat → UInt8} {length : Int} {j : Nat} (hs : s.Inv) (hlength : 0 < length) :
    (bytesAt search_for length).isPrefixOf (s.contents.drop j) = true ↔
      j + length ≤ s.data_size ∧ MatchAt s.block search_for length j := by
  have hlen := hs.length_contents
  rw [List.isPrefixOf_iff_prefix, List.prefix_iff_eq_take, length_bytesAt, MatchAt, drop_contents, List.take_take]
  constructor
  · intro h
    have hlengths := congrArg List.length h
    rw [length_bytesAt, List.length_take] at hlengths
    have hin : j + length ≤ s.data_size := by omega
    rw [Nat.min_eq_left (by omega)] at h
    exact ⟨hin, h⟩
  · intro h
    obtain ⟨hin, hmatch⟩ := h
    rw [Nat.min_eq_left (by omega)]
    exact hmatch

theorem findData_eq {search_for : Nat → UInt8} {length from_index : Int} (hs : s.Inv)
    (hfits : 0 ≤ from_index ∨ length ≤ 0 ∨ s.data_size < length) :
    s.findData search_for length from_index =
      some (if length ≤ 0 then -1 else firstMatch s.contents (bytesAt search_for length) from_index) := by
  have hlen := hs.length_contents
  have hle := hs.le_allocated
  have hblock := hs.length_block
  unfold findData
  by_cases hempty : length ≤ 0
  · rw [if_pos (.inl hempty), if_pos hempty]
    rfl
  · have hlength : 0 < length := Int.not_le.mp hempty
    rw [if_neg hempty]
    split
    · -- no place from `from_index` on has room for the pattern
      next hout =>
      rw [firstMatch_eq_neg_one]
      · rfl
      · intro k hk hfrom hmatch
        have hin := ((isPrefixOf_contents hs hlength).mp hmatch).1
        omega
    · next hin =>
      obtain ⟨m, rfl⟩ := Int.eq_ofNat_of_zero_le (show 0 ≤ from_index by omega)
      dsimp only
      generalize hn : (s.data_size - length + 1 - m).toNat = n
      rcases searchLoop_spec s.block search_for hlength n m (by omega) with
        ⟨j, hmj, hj, hmatch, hfirst, hresult⟩ | ⟨hnone, hresult⟩
      · rw [hresult, firstMatch_eq (j := j) (by omega) (by omega)]
        · exact (isPrefixOf_contents hs hlength).mpr ⟨by omega, hmatch⟩
        · intro k hk hkj hmatch
          exact hfirst k (by omega) hkj ((isPrefixOf_contents hs hlength).mp hmatch).2
      · rw [hresult, firstMatch_eq_neg_one]
        · rfl
        · intro k hk hfrom hmatch
          obtain ⟨hroom, hmatch⟩ := (isPrefixOf_contents hs hlength).mp hmatch
          exact hnone k (by omega) (by omega) hmatch

theorem findData_of_neg {search_for : Nat → UInt8} {length from_index : Int} (hs : s.Inv)
    (h : ¬(0 ≤ from_index ∨ length ≤ 0 ∨ s.data_size < length)) : s.findData search_for length from_index = none := by
  have hnonneg := hs.nonneg
  have hin : ¬(length ≤ 0 ∨ s.data_size ≤ from_index ∨ s.data_size < length) := by omega
  have hneg : from_index < 0 := by omega
  obtain ⟨n, hn⟩ : ∃ n, (s.data_size - length + 1 - from_index).toNat = n + 1 :=
    ⟨(s.data_size - length - from_index).toNat, by omega⟩
  rw [findData, if_neg hin]
  dsimp only
  rw [hn, searchLoop, Block.peek_of_neg hneg]
  rfl

theorem atIndex_eq {index : Int} (hs : s.Inv) :
    s.atIndex index = some (if 0 ≤ index then s.contents[index.toNat]? else none) := by
  have hlen := hs.length_contents
  have hle := hs.le_allocated
  have hblock := hs.length_block
  unfold atIndex
  split
  · split
    · rw [List.getElem?_eq_none (by omega)]
    · rfl
  · next hin =>
    obtain ⟨k, rfl⟩ := Int.eq_ofNat_of_zero_le (show 0 ≤ index by omega)
    have hlt : k < s.block.length := by omega
    rw [if_pos (Int.natCast_nonneg k), Block.peek_of_lt hlt, contents, Int.toNat_natCast,
      List.getElem?_take_of_lt (by omega), List.getElem?_eq_getElem hlt]
    rfl

theorem refines_of_result (op : Op) {α : Type} {result : Option α} {f : α → Result} {value : α} (hs : s.Inv)
    (hexec : s.exec moved op = result.map fun a => (s, f a)) (hlist : listExec s.contents op = (s.contents, f value))
    (hresult : result = some value) : Refines moved s op := by
  refine ⟨s, f value, ?_, hs, hlist.symm⟩
  rw [hexec, hresult]
  rfl

theorem refines_append_of {buf : Nat → UInt8} (hs : s.Inv) :
    (∃ s', s.append buf len = some s' ∧ s'.Inv ∧ s'.contents = s.contents ++ bytesAt buf len) ↔ s.Room len := by
  constructor
  · intro h
    obtain ⟨s', happend, -⟩ := h
    exact room_of_append happend
  · exact append_of_room hs

/-- A call does what it does on the list exactly with the arguments that fit. -/
theorem refines_iff_fits (hs : s.Inv) (op : Op) : Refines moved s op ↔ Fits moved s op := by
  cases op with
  | append buf len =>
    rw [refines_iff (.append buf len) rfl rfl]
    exact refines_append_of hs
  | data buf len =>
    rw [refines_iff (.data buf len) rfl rfl]
    exact refines_append_of (inv_empty s)
  | empty => exact iff_of_true ⟨s.empty, .nothing, rfl, inv_empty s, rfl⟩ trivial
  | truncate length => exact refines_truncate hs
  | substr nStartIndex nEndIndex => exact refines_substr hs
  | find value =>
    apply iff_of_true _ trivial
    exact refines_of_result (.find value) hs rfl rfl (find_eq hs)
  | findData search_for length from_index =>
    constructor
    · intro h
      obtain ⟨s', r, hexec, -⟩ := h
      by_contra hout
      unfold exec at hexec
      dsimp only at hexec
      rw [findData_of_neg hs hout] at hexec
      cases hexec
    · intro h
      exact refines_of_result (.findData search_for length from_index) hs rfl rfl (findData_eq hs h)
  | atIndex index =>
    apply iff_of_true _ trivial
    exact refines_of_result (.atIndex index) hs rfl rfl (atIndex_eq hs)

/-- Every call that returns leaves the sizes in order. -/
theorem inv_step {op : Op} (hs : s.Inv) (h : step moved s op = some s') : s'.Inv := by
  obtain ⟨⟨s'', r⟩, hexec, rfl⟩ := Option.map_eq_some_iff.mp h
  have inv_append : ∀ {s₀ : CSmartBuffer} {buf : Nat → UInt8} {len : Nat} {result : CSmartBuffer}, s₀.Inv →
      s₀.append buf len = some result → result.Inv := by
    intro s₀ buf len result hs₀ happend
    obtain ⟨result', happend', hinv, -⟩ := append_of_room hs₀ (room_of_append happend)
    rw [happend] at happend'
    obtain rfl := Option.some.inj happend'
    exact hinv
  cases op with
  | append buf len =>
    obtain ⟨result, happend, hpair⟩ := Option.map_eq_some_iff.mp hexec
    cases hpair
    exact inv_append hs happend
  | data buf len =>
    obtain ⟨result, happend, hpair⟩ := Option.map_eq_some_iff.mp hexec
    cases hpair
    exact inv_append (inv_empty s) happend
  | empty =>
    cases hexec
    exact inv_empty s
  | truncate length =>
    obtain ⟨result, htruncate, hpair⟩ := Option.map_eq_some_iff.mp hexec
    cases hpair
    rcases truncate_eq_some htruncate with ⟨-, rfl⟩ | ⟨-, block, hmove, rfl⟩
    · exact inv_empty s
    · exact inv_memcpy hs hmove
  | substr nStartIndex nEndIndex =>
    obtain ⟨result, hsubstr, hpair⟩ := Option.map_eq_some_iff.mp hexec
    cases hpair
    exact inv_substr hs hsubstr
  | find value =>
    obtain ⟨i, -, hpair⟩ := Option.map_eq_some_iff.mp hexec
    cases hpair
    exact hs
  | findData search_for length from_index =>
    obtain ⟨i, -, hpair⟩ := Option.map_eq_some_iff.mp hexec
    cases hpair
    exact hs
  | atIndex index =>
    obtain ⟨b, -, hpair⟩ := Option.map_eq_some_iff.mp hexec
    cases hpair
    exact hs

/-- A buffer as one of the constructors leaves it. -/
inductive Constructed : CSmartBuffer → Prop
  | new (step_size : Int32) : Constructed (new step_size)
  | newAllocated {allocated_size step_size : Int32} {s : CSmartBuffer} :
    newAllocated allocated_size step_size = some s → Constructed s

theorem Constructed.inv (h : s.Constructed) : s.Inv := by
  cases h with
  | new step_size => exact inv_new step_size
  | newAllocated h => exact inv_newAllocated h

/-- A sequence of calls does what it does on the list exactly when the arguments of each call fit
the buffer that the call finds. -/
theorem calls_refine_list_iff (moved : List UInt8 → Nat → Nat → Nat → UInt8) (s : CSmartBuffer) (ops : List Op)
    (hs : s.Constructed) : EachStep (step moved) (Refines moved) s ops ↔ EachStep (step moved) (Fits moved) s ops := by
  apply eachStep_congr (I := Inv)
  · intro s op s' hs hstep
    exact inv_step hs hstep
  · exact hs.inv
  · intro s op hs
    exact refines_iff_fits hs op

/-- A buffer of no bytes, which grows by eight. -/
def emptyBuffer : CSmartBuffer := ⟨8, 0, 0, some []⟩

/-- A frame is received behind eight bytes that are then dropped. -/
theorem calls_refine_list_receive : newAllocated 0 8 = some emptyBuffer ∧
    EachStep (step memmove) (Refines memmove) emptyBuffer
      [.append (fun k => k.toUInt8) 16, .find 9, .truncate 9, .substr 0 3, .atIndex (-1), .empty] := by
  have hnew : newAllocated 0 8 = some emptyBuffer := rfl
  refine ⟨hnew, (calls_refine_list_iff memmove emptyBuffer _ (.newAllocated hnew)).mpr ?_⟩
  rw [eachStep_cons_of_step rfl, eachStep_cons_of_step rfl, eachStep_cons_of_step rfl, eachStep_cons_of_step rfl,
    eachStep_cons_of_step rfl, eachStep_cons_of_step rfl]
  refine ⟨.inr (by decide), trivial, .inr ⟨by decide, .inl (by decide)⟩, ?_, trivial, trivial, eachStep_nil⟩
  intro _ _
  exact ⟨.inl (by decide), fun _ => .inr (by decide)⟩

/-- Of four bytes those from place 2 to the last are taken and one that is behind them: the length
of the result is 3. A search from place -1 on reads in front of the block. -/
theorem calls_not_refine_list :
    (¬EachStep (step memmove) (Refines memmove) emptyBuffer [.append (fun k => k.toUInt8) 4, .substr 2 4]) ∧
      ¬EachStep (step memmove) (Refines memmove) emptyBuffer
        [.append (fun k => k.toUInt8) 4, .findData (fun k => k.toUInt8) 1 (-1)] := by
  constructor
  · intro h
    obtain ⟨s', r, hexec, -, hlist⟩ := h [.append (fun k => k.toUInt8) 4] (.substr 2 4) [] _ rfl rfl
    cases hexec
    revert hlist
    decide
  · intro h
    obtain ⟨s', r, hexec, -⟩ := h [.append (fun k => k.toUInt8) 4] (.findData (fun k => k.toUInt8) 1 (-1)) [] _ rfl rfl
    cases hexec

end CSmartBuffer

end Perception.Buf
