import Perception.Net.RoundTrip

/-!
# Where the packer writes

`PkgProtocolData` with the lengths as the `int`s and `unsigned`s they are, and with its
writes to `output` in order. The size check is made on the package before escaping, so that
it says nothing about the escaped package that is written.
-/
namespace Perception.Net

set_option autoImplicit false

open Perception.Lib

def INT_MAX : Nat := 2147483647
def UINT_VALUES : Nat := 4294967296

/-- The argument of `AllocateMem`: an `unsigned int` as an `int`. -/
def asInt (n : Nat) : Int := if n ≤ INT_MAX then n else (n : Int) - UINT_VALUES

/-- How a call of `PkgProtocolData` ends. `thrown`: `new` is asked for a negative number of
elements. `undefined`: an `int` overflows, or the body is copied into a buffer that is too
small for it. `refused`: `false` is returned before anything is written. `packed`: the bytes
written to `output` with their offsets, and `outputlen`. -/
inductive Packing
  | thrown
  | undefined
  | refused
  | packed (writes : List (UInt8 × Nat)) (outputlen : Nat)
  deriving DecidableEq

/-- Nothing is written at or behind `outsize`, and the package ends before it. -/
def Packing.InBounds (outsize : Nat) : Packing → Prop
  | thrown => True
  | undefined => False
  | refused => True
  | packed writes outputlen => outputlen ≤ outsize ∧ ∀ w ∈ writes, w.2 < outsize

/-- How many bytes of `pkgdata` `SendTcpData` sends; it does not look at what the call
returned, and `nOutLen` starts as zero. -/
def Packing.sent : Packing → Option Nat
  | thrown => none
  | undefined => none
  | refused => some 0
  | packed _ outputlen => some outputlen

namespace NetTcpDataPkg

/-- The writes of a package in the order of the source: the head flag, the escaped bytes, the
length, the tail flag. -/
def writesOf (convt : List UInt8) : List (UInt8 × Nat) :=
  let outputlen := s32HeardOffSet + convt.length + nTailFlagLen
  [cHeadFlag].zipIdx 0 ++ convt.zipIdx s32HeardOffSet ++ (dwordBytes outputlen).zipIdx nHeadFlagLen ++
    [cTailFlag].zipIdx (s32HeardOffSet + convt.length)

/-- `PkgProtocolData` with its writes. -/
def PackInto (d : NetTcpDataPkg) (nSendType : Int) (cmd : UInt16) (input : List UInt8) (outsize : Nat) : Packing :=
  let nBodyBufferLen := asInt input.length
  let nBufferLen : Int := nPkgHeadLen + nBodyBufferLen + nPkgTailLen
  if INT_MAX ≤ nBufferLen then .undefined
  else if nBufferLen + 1 < 0 then .thrown
  else if outsize < (nBufferLen % UINT_VALUES).toNat then .refused
  else if nBodyBufferLen < 0 then .undefined
  else
    let convt := ConvtCode (d.pkgContent nSendType cmd input)
    let outputlen := s32HeardOffSet + convt.length + nTailFlagLen
    if INT_MAX < outputlen then .undefined else .packed (writesOf convt) outputlen

/-- How many bytes from the version to the crc are escaped. -/
def escapes (d : NetTcpDataPkg) (nSendType : Int) (cmd : UInt16) (input : List UInt8) : Nat :=
  (d.pkgContent nSendType cmd input).countP needsConvt

/-- The package is too long without its escapes, or fits with them. For a body of 2^31 bytes
or more the lengths wrap, and the call must end before the body is copied. -/
def PackFits (d : NetTcpDataPkg) (nSendType : Int) (cmd : UInt16) (input : List UInt8) (outsize : Nat) : Prop :=
  if input.length ≤ INT_MAX then
    input.length + nPkgNobodyLen < INT_MAX ∧ (outsize < input.length + nPkgNobodyLen ∨
      input.length + nPkgNobodyLen + d.escapes nSendType cmd input ≤ min outsize INT_MAX)
  else
    input.length + nPkgNobodyLen + 1 < UINT_VALUES ∨ outsize < (input.length + nPkgNobodyLen) % UINT_VALUES

instance (d : NetTcpDataPkg) (nSendType : Int) (cmd : UInt16) (input : List UInt8) (outsize : Nat) :
    Decidable (d.PackFits nSendType cmd input outsize) := by unfold PackFits; infer_instance

/-- The parts of a package, each at its place and in whatever order, are the package. -/
theorem zipIdx_parts (flag : UInt8) (len convt tail : List UInt8) :
    ([flag].zipIdx 0 ++ convt.zipIdx (1 + len.length) ++ len.zipIdx 1 ++ tail.zipIdx (1 + len.length + convt.length)).Perm
      (flag :: len ++ convt ++ tail).zipIdx := by
  have hsplit : (flag :: len ++ convt ++ tail).zipIdx =
      [flag].zipIdx 0 ++ (len.zipIdx 1 ++ convt.zipIdx (1 + len.length)) ++ tail.zipIdx (1 + len.length + convt.length) := by
    rw [List.zipIdx_append, List.zipIdx_append, List.length_append, List.length_cons]
    simp only [List.zipIdx_cons, List.zipIdx_nil, List.cons_append, List.nil_append, Nat.zero_add, Nat.add_comm]
  rw [hsplit, List.append_assoc ([flag].zipIdx 0)]
  apply List.Perm.append_right
  apply List.Perm.append_left
  exact List.perm_append_comm

variable (d : NetTcpDataPkg) (nSendType : Int) (cmd : UInt16) (input : List UInt8)

theorem writesOf_perm :
    (writesOf (stuff (d.pkgContent nSendType cmd input))).Perm (d.frame nSendType cmd input).zipIdx :=
  zipIdx_parts cHeadFlag (dwordBytes (d.frameLength nSendType cmd input)) (stuff (d.pkgContent nSendType cmd input)) [cTailFlag]

theorem frameLength_eq : d.frameLength nSendType cmd input = input.length + nPkgNobodyLen + d.escapes nSendType cmd input := by
  have hstuff : (stuff (d.pkgContent nSendType cmd input)).length = _ :=
    Stuffing.stuff_length 0x34 needsConvt (~~~ ·) (d.pkgContent nSendType cmd input)
  have hlen := d.pkgContent_length nSendType cmd input
  simp only [frameLength, escapes, s32HeardOffSet, nHeadFlagLen, nIntLen, nTailFlagLen, nPkgNobodyLen, nPkgHeadLen, nPkgTailLen]
  omega

theorem escapes_le : d.escapes nSendType cmd input ≤ input.length + 8 := by
  have hcount := List.countP_le_length (p := needsConvt) (l := d.pkgContent nSendType cmd input)
  have hlen := d.pkgContent_length nSendType cmd input
  unfold escapes
  omega

theorem nBufferLen_of_le (h : input.length ≤ INT_MAX) :
    (nPkgHeadLen + asInt input.length + nPkgTailLen : Int) = (input.length + nPkgNobodyLen : Nat) := by
  unfold asInt nPkgNobodyLen
  rw [if_pos h]
  omega

/-- A body whose length is an `int`. -/
theorem PackInto_of_le {outsize : Nat} (h : input.length ≤ INT_MAX) :
    d.PackInto nSendType cmd input outsize =
      if INT_MAX ≤ input.length + nPkgNobodyLen then .undefined
      else if outsize < input.length + nPkgNobodyLen then .refused
      else if INT_MAX < d.frameLength nSendType cmd input then .undefined
      else .packed (writesOf (stuff (d.pkgContent nSendType cmd input))) (d.frameLength nSendType cmd input) := by
  have hbody : ¬ asInt input.length < 0 := by
    unfold asInt
    rw [if_pos h]
    omega
  simp only [PackInto, nBufferLen_of_le input h, if_neg hbody, ConvtCode_eq_stuff]
  by_cases hmax : INT_MAX ≤ input.length + nPkgNobodyLen
  · rw [if_pos hmax, if_pos (by omega)]
  · have hneg : ¬ ((input.length + nPkgNobodyLen : Nat) : Int) + 1 < 0 := by omega
    have hmod : (((input.length + nPkgNobodyLen : Nat) : Int) % UINT_VALUES).toNat = input.length + nPkgNobodyLen := by
      unfold UINT_VALUES
      unfold INT_MAX at hmax
      omega
    rw [if_neg hmax, if_neg (by omega), if_neg hneg, hmod]
    rfl

/-- A longer body: no call packs it. -/
theorem PackInto_of_lt {outsize : Nat} (h : INT_MAX < input.length) (hlen : input.length < UINT_VALUES) :
    d.PackInto nSendType cmd input outsize =
      if input.length + nPkgNobodyLen + 1 < UINT_VALUES then .thrown
      else if outsize < (input.length + nPkgNobodyLen) % UINT_VALUES then .refused
      else .undefined := by
  have hbuf : (nPkgHeadLen + asInt input.length + nPkgTailLen : Int) = (input.length + nPkgNobodyLen : Nat) - UINT_VALUES := by
    unfold asInt nPkgNobodyLen
    rw [if_neg (Nat.not_le.mpr h)]
    omega
  have hbody : asInt input.length < 0 := by
    unfold asInt
    rw [if_neg (Nat.not_le.mpr h)]
    omega
  have hmax : ¬ (INT_MAX : Int) ≤ (input.length + nPkgNobodyLen : Nat) - UINT_VALUES := by
    unfold INT_MAX UINT_VALUES nPkgNobodyLen nPkgHeadLen nPkgTailLen at *
    omega
  have hmod : (((input.length + nPkgNobodyLen : Nat) - UINT_VALUES : Int) % UINT_VALUES).toNat =
      (input.length + nPkgNobodyLen) % UINT_VALUES := by
    unfold UINT_VALUES
    omega
  simp only [PackInto, hbuf, if_neg hmax, if_pos hbody, hmod]
  by_cases hthrow : input.length + nPkgNobodyLen + 1 < UINT_VALUES
  · rw [if_pos hthrow, if_pos (by omega)]
  · rw [if_neg hthrow, if_neg (by omega)]

/-- Where the call packs, it writes each byte of the package once, at its place. -/
theorem packed_spec {outsize outputlen : Nat} {writes : List (UInt8 × Nat)}
    (hlen : input.length < UINT_VALUES) (h : d.PackInto nSendType cmd input outsize = .packed writes outputlen) :
    d.PkgProtocolData nSendType cmd input outsize = some (d.frame nSendType cmd input) ∧
      outputlen = (d.frame nSendType cmd input).length ∧ writes.Perm (d.frame nSendType cmd input).zipIdx := by
  by_cases hle : input.length ≤ INT_MAX
  · rw [PackInto_of_le d nSendType cmd input hle] at h
    split at h
    · cases h
    · split at h
      · cases h
      · next hfit =>
        split at h
        · cases h
        · obtain ⟨rfl, rfl⟩ := Packing.packed.inj h
          refine ⟨?_, (d.frame_length nSendType cmd input).symm, d.writesOf_perm nSendType cmd input⟩
          have hfit' : ¬ outsize < nPkgHeadLen + input.length + nPkgTailLen := by
            unfold nPkgNobodyLen at hfit
            omega
          simp only [PkgProtocolData, ConvtCode_eq_stuff, if_neg hfit']
          rfl
  · rw [PackInto_of_lt d nSendType cmd input (Nat.lt_of_not_le hle) hlen] at h
    split at h
    · cases h
    · split at h
      · cases h
      · cases h

theorem inBounds_packed {outsize outputlen : Nat} {writes : List (UInt8 × Nat)} {f : List UInt8}
    (hlen : outputlen = f.length) (hperm : writes.Perm f.zipIdx) :
    (Packing.packed writes outputlen).InBounds outsize ↔ outputlen ≤ outsize := by
  refine ⟨fun h => h.1, fun h => ⟨h, fun w hw => ?_⟩⟩
  have hin := List.snd_lt_of_mem_zipIdx (hperm.mem_iff.mp hw)
  omega

theorem inBounds_iff (hlen : input.length < UINT_VALUES) (outsize : Nat) :
    (d.PackInto nSendType cmd input outsize).InBounds outsize ↔ d.PackFits nSendType cmd input outsize := by
  unfold PackFits
  rw [← d.frameLength_eq nSendType cmd input, Nat.le_min]
  by_cases hle : input.length ≤ INT_MAX
  · rw [PackInto_of_le d nSendType cmd input hle, if_pos hle]
    split
    · next hmax => exact iff_of_false (fun h => h) fun h => Nat.not_lt.mpr hmax h.1
    · next hmax =>
      split
      · next hshort => exact iff_of_true trivial ⟨Nat.lt_of_not_le hmax, .inl hshort⟩
      · next hshort =>
        split
        · next hint =>
          refine iff_of_false (fun h => h) fun h => ?_
          have hfit := h.2.resolve_left hshort
          exact Nat.not_lt.mpr hfit.2 hint
        · next hint =>
          rw [inBounds_packed (d.frame_length nSendType cmd input).symm (d.writesOf_perm nSendType cmd input)]
          constructor
          · exact fun h => ⟨Nat.lt_of_not_le hmax, .inr ⟨h, Nat.le_of_not_lt hint⟩⟩
          · exact fun h => (h.2.resolve_left hshort).1
  · rw [PackInto_of_lt d nSendType cmd input (Nat.lt_of_not_le hle) hlen, if_neg hle]
    split
    · next hthrow => exact iff_of_true trivial (.inl hthrow)
    · next hthrow =>
      split
      · next hshort => exact iff_of_true trivial (.inr hshort)
      · next hshort => exact iff_of_false (fun h => h) fun h => h.elim hthrow hshort

/-- What `SendTcpData` sends stays inside `pkgdata`. -/
theorem sent_le_iff (hlen : input.length < UINT_VALUES) :
    (∀ n, (d.PackInto nSendType cmd input nMaxPkgLen).sent = some n → n ≤ nMaxPkgLen) ↔
      nMaxPkgLen < input.length + nPkgNobodyLen ∨
        input.length + nPkgNobodyLen + d.escapes nSendType cmd input ≤ nMaxPkgLen := by
  by_cases hshort : nMaxPkgLen < input.length + nPkgNobodyLen
  · refine iff_of_true (fun n hn => ?_) (.inl hshort)
    cases hpack : d.PackInto nSendType cmd input nMaxPkgLen with
    | packed writes outputlen =>
      have hsome := (packed_spec d nSendType cmd input hlen hpack).1
      have hnone : ¬ nMaxPkgLen < nPkgHeadLen + input.length + nPkgTailLen := by
        intro hlt
        simp only [PkgProtocolData, if_pos hlt] at hsome
        cases hsome
      unfold nPkgNobodyLen at hshort
      omega
    | thrown =>
      rw [hpack] at hn
      cases hn
    | undefined =>
      rw [hpack] at hn
      cases hn
    | refused =>
      rw [hpack] at hn
      cases hn
      exact Nat.zero_le _
  · have hbound := d.escapes_le nSendType cmd input
    rw [← d.frameLength_eq nSendType cmd input]
    have hle : input.length ≤ INT_MAX := by
      unfold nMaxPkgLen at hshort
      unfold INT_MAX
      omega
    have hmax : ¬ INT_MAX ≤ input.length + nPkgNobodyLen := by
      unfold nMaxPkgLen at hshort
      unfold INT_MAX
      omega
    have hint : ¬ INT_MAX < d.frameLength nSendType cmd input := by
      rw [frameLength_eq]
      unfold nMaxPkgLen at hshort
      unfold INT_MAX
      omega
    rw [PackInto_of_le d nSendType cmd input hle, if_neg hmax, if_neg hshort, if_neg hint, or_iff_right hshort]
    constructor
    · exact fun h => h _ rfl
    · intro h n hn
      rw [← Option.some.inj hn]
      exact h

/-- A call of `PkgProtocolData` stays inside `output` exactly when the package is refused or
fits after escaping, and so does what `SendTcpData` sends from it. -/
theorem packs_inside_iff (hlen : input.length < UINT_VALUES) (outsize : Nat) :
    ((d.PackInto nSendType cmd input outsize).InBounds outsize ↔ d.PackFits nSendType cmd input outsize) ∧
      ((∀ n, (d.PackInto nSendType cmd input nMaxPkgLen).sent = some n → n ≤ nMaxPkgLen) ↔
        nMaxPkgLen < input.length + nPkgNobodyLen ∨
          input.length + nPkgNobodyLen + d.escapes nSendType cmd input ≤ nMaxPkgLen) :=
  ⟨d.inBounds_iff nSendType cmd input hlen outsize, d.sent_le_iff nSendType cmd input hlen⟩

/-- A body of two bytes that are escaped, and an output that has room for it before that. -/
theorem packs_outside :
    (new "6000" "10.0.0.2:5000").PackInto MSG_REQ 0x11 [0x34, 0x34] 16 =
        .packed (writesOf (ConvtCode ((new "6000" "10.0.0.2:5000").pkgContent MSG_REQ 0x11 [0x34, 0x34]))) 18 ∧
      ¬ ((new "6000" "10.0.0.2:5000").PackInto MSG_REQ 0x11 [0x34, 0x34] 16).InBounds 16 := by
  have hpack : (new "6000" "10.0.0.2:5000").PackInto MSG_REQ 0x11 [0x34, 0x34] 16 =
      .packed (writesOf (ConvtCode ((new "6000" "10.0.0.2:5000").pkgContent MSG_REQ 0x11 [0x34, 0x34]))) 18 := by
    decide +kernel
  refine ⟨hpack, ?_⟩
  rw [hpack]
  intro h
  exact absurd h.1 (by decide)

/-- The same body, and an output that has room for what is escaped. -/
theorem packs_inside_escaped :
    ((new "6000" "10.0.0.2:5000").PackInto MSG_REQ 0x11 [0x34, 0x34] 18).InBounds 18 ∧
      ∀ n, ((new "6000" "10.0.0.2:5000").PackInto MSG_REQ 0x11 [0x34, 0x34] nMaxPkgLen).sent = some n → n ≤ nMaxPkgLen := by
  have hfits : (new "6000" "10.0.0.2:5000").PackFits MSG_REQ 0x11 [0x34, 0x34] 18 := by decide +kernel
  have hpacks := packs_inside_iff (new "6000" "10.0.0.2:5000") MSG_REQ 0x11 [0x34, 0x34] (by decide) 18
  rw [hpacks.1, hpacks.2]
  exact ⟨hfits, .inr (by decide +kernel)⟩

end NetTcpDataPkg

end Perception.Net
