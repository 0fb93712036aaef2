import Mathlib.Data.List.GetD
import Perception.Net.PackBounds

/-!
# Calls of the escape conversion

`ConvtCode` and `UnconvtCode` with their indices as the `int`s they are, and with the reads of
`UnconvtCode` in its buffer. A call has no result where an index overflows, or where a byte
behind the buffer is read.
-/
namespace Perception.Net

set_option autoImplicit false

open Perception.Lib

/-- `k++`. -/
def incr (k : Nat) : Option Nat := if k < INT_MAX then some (k + 1) else none

/-- The loop of `ConvtCode` with the index `k` of the next byte of `pu8OutBuf`. -/
def ConvtLoop : List UInt8 → Nat → List UInt8 → Option (List UInt8)
  | [], _, pu8OutBuf => some pu8OutBuf
  | u8Temp :: pu8InBuf, k, pu8OutBuf =>
    if needsConvt u8Temp then do
      let k ← incr k
      let k ← incr k
      ConvtLoop pu8InBuf k (pu8OutBuf ++ [0x34, ~~~u8Temp])
    else do
      let k ← incr k
      ConvtLoop pu8InBuf k (pu8OutBuf ++ [u8Temp])

/-- The bytes written, whose number is returned. -/
def ConvtCall (pu8InBuf : List UInt8) : Option (List UInt8) := ConvtLoop pu8InBuf 0 []

/-- The loop of `UnconvtCode` from the index `i`. -/
def UnconvtReads (pu8InBuf : List UInt8) (s32InBufLen : Nat) : Nat → Nat → List UInt8 → Option (List UInt8)
  | 0, i, pu8OutBuf => if i < s32InBufLen then none else some pu8OutBuf
  | fuel + 1, i, pu8OutBuf =>
    if i < s32InBufLen then do
      let u8Temp ← pu8InBuf[i]?
      let i ← incr i
      if u8Temp = 0x34 then do
        let u8Temp ← pu8InBuf[i]?
        let i ← incr i
        UnconvtReads pu8InBuf s32InBufLen fuel i (pu8OutBuf ++ [~~~u8Temp])
      else UnconvtReads pu8InBuf s32InBufLen fuel i (pu8OutBuf ++ [u8Temp])
    else some pu8OutBuf

def UnconvtCall (pu8InBuf : List UInt8) (s32InBufLen : Nat) : Option (List UInt8) :=
  UnconvtReads pu8InBuf s32InBufLen s32InBufLen 0 []

/-- A byte string comes back from the bytes that are written for it, which have no flag and are
between as many and twice as many. -/
def Stuffed (x : List UInt8) : Prop :=
  ∃ out, ConvtCall x = some out ∧ UnconvtCall out out.length = some x ∧ 0x7D ∉ out ∧ 0x0B ∉ out ∧
    x.length ≤ out.length ∧ out.length ≤ 2 * x.length

theorem incr_bind {β : Type} (k : Nat) (f : Nat → Option β) :
    (incr k).bind f = if k < INT_MAX then f (k + 1) else none := by
  unfold incr
  split
  · rfl
  · rfl

theorem stuff_special {c : UInt8} (hc : needsConvt c = true) (x : List UInt8) :
    stuff (c :: x) = [0x34, ~~~c] ++ stuff x := by
  rw [stuff, Stuffing.stuff, if_pos hc]
  rfl

theorem stuff_plain {c : UInt8} (hc : ¬needsConvt c = true) (x : List UInt8) : stuff (c :: x) = [c] ++ stuff x := by
  rw [stuff, Stuffing.stuff, if_neg hc]
  rfl

theorem ConvtLoop_special {c : UInt8} (hc : needsConvt c = true) (x : List UInt8) (k : Nat) (out : List UInt8) :
    ConvtLoop (c :: x) k out =
      if k + 1 < INT_MAX then ConvtLoop x (k + 2) (out ++ [0x34, ~~~c]) else none := by
  simp only [ConvtLoop, if_pos hc, Option.bind_eq_bind, incr_bind]
  by_cases hroom : k + 1 < INT_MAX
  · rw [if_pos hroom, if_pos (by omega)]
  · rw [if_neg hroom, ite_self]

theorem ConvtLoop_plain {c : UInt8} (hc : ¬needsConvt c = true) (x : List UInt8) (k : Nat) (out : List UInt8) :
    ConvtLoop (c :: x) k out = if k < INT_MAX then ConvtLoop x (k + 1) (out ++ [c]) else none := by
  simp only [ConvtLoop, if_neg hc, Option.bind_eq_bind, incr_bind]

/-- What is written, when the index stays an `int`. -/
theorem ConvtLoop_eq (x : List UInt8) (k : Nat) (out : List UInt8) (hk : k ≤ INT_MAX) :
    ConvtLoop x k out = if k + (stuff x).length ≤ INT_MAX then some (out ++ stuff x) else none := by
  induction x generalizing k out with
  | nil =>
    rw [ConvtLoop, stuff, Stuffing.stuff, List.length_nil, Nat.add_zero, if_pos hk, List.append_nil]
  | cons c x ih =>
    by_cases hc : needsConvt c = true
    · have hstuff : stuff (c :: x) = [0x34, ~~~c] ++ stuff x := stuff_special hc x
      rw [ConvtLoop_special hc, hstuff, ← List.append_assoc, List.length_append]
      by_cases hroom : k + 1 < INT_MAX
      · have hlen : k + (2 + (stuff x).length) = k + 2 + (stuff x).length := by omega
        rw [if_pos hroom, ih _ _ (by omega), ← hlen]
        rfl
      · have hfull : ¬k + (2 + (stuff x).length) ≤ INT_MAX := by omega
        rw [if_neg hroom]
        exact (if_neg hfull).symm
    · have hstuff : stuff (c :: x) = [c] ++ stuff x := stuff_plain hc x
      rw [ConvtLoop_plain hc, hstuff, ← List.append_assoc, List.length_append]
      by_cases hroom : k < INT_MAX
      · have hlen : k + (1 + (stuff x).length) = k + 1 + (stuff x).length := by omega
        rw [if_pos hroom, ih _ _ (by omega), ← hlen]
        rfl
      · have hfull : ¬k + (1 + (stuff x).length) ≤ INT_MAX := by omega
        rw [if_neg hroom]
        exact (if_neg hfull).symm

theorem ConvtCall_eq (x : List UInt8) :
    ConvtCall x = if x.length + x.countP needsConvt ≤ INT_MAX then some (stuff x) else none := by
  rw [ConvtCall, ConvtLoop_eq x 0 [] (Nat.zero_le _), Nat.zero_add, stuff, Stuffing.stuff_length, List.nil_append]

section Turn

variable {buf : List UInt8} {len fuel i : Nat} {out : List UInt8}

theorem UnconvtReads_esc (hi : i < len) (hbuf : i + 2 ≤ buf.length) (hint : i + 2 ≤ INT_MAX)
    (hesc : buf.getD i 0 = 0x34) : UnconvtReads buf len (fuel + 1) i out =
      UnconvtReads buf len fuel (i + 2) (out ++ [~~~(buf.getD (i + 1) 0)]) := by
  have hfirst : buf[i]? = some (buf.getD i 0) := by
    rw [List.getD_eq_getElem _ _ (by omega), List.getElem?_eq_getElem]
  have hsecond : buf[i + 1]? = some (buf.getD (i + 1) 0) := by
    rw [List.getD_eq_getElem _ _ (by omega), List.getElem?_eq_getElem]
  have hroom : i < INT_MAX := by omega
  have hroom' : i + 1 < INT_MAX := by omega
  simp only [UnconvtReads, if_pos hi, Option.bind_eq_bind, hfirst, Option.bind_some, incr_bind, if_pos hroom,
    if_pos hesc, hsecond, if_pos hroom']

theorem UnconvtReads_plain (hi : i < len) (hbuf : i + 1 ≤ buf.length) (hint : i + 1 ≤ INT_MAX)
    (hesc : buf.getD i 0 ≠ 0x34) : UnconvtReads buf len (fuel + 1) i out =
      UnconvtReads buf len fuel (i + 1) (out ++ [buf.getD i 0]) := by
  have hfirst : buf[i]? = some (buf.getD i 0) := by
    rw [List.getD_eq_getElem _ _ (by omega), List.getElem?_eq_getElem]
  have hroom : i < INT_MAX := by omega
  simp only [UnconvtReads, if_pos hi, Option.bind_eq_bind, hfirst, Option.bind_some, incr_bind, if_pos hroom,
    if_neg hesc]

end Turn

theorem le_UnconvtLoop (buf : List UInt8) (len fuel : Nat) : ∀ (i : Nat) (out : List UInt8),
    i ≤ (UnconvtLoop buf len fuel i out).1 := by
  induction fuel with
  | zero => exact fun i out => Nat.le_refl i
  | succ fuel ih =>
    intro i out
    rw [UnconvtLoop]
    split
    · split
      · exact Nat.le_trans (Nat.le_add_right i 2) (ih (i + 2) _)
      · exact Nat.le_trans (Nat.le_add_right i 1) (ih (i + 1) _)
    · exact Nat.le_refl i

/-- The reads are inside when the last index is. -/
theorem UnconvtReads_eq {buf : List UInt8} {len : Nat} (fuel : Nat) : ∀ (i : Nat) (out : List UInt8), len ≤ i + fuel →
    (UnconvtLoop buf len fuel i out).1 ≤ buf.length → (UnconvtLoop buf len fuel i out).1 ≤ INT_MAX →
    UnconvtReads buf len fuel i out = some (UnconvtLoop buf len fuel i out).2 := by
  induction fuel with
  | zero =>
    intro i out hfuel _ _
    exact if_neg (by omega)
  | succ fuel ih =>
    intro i out hfuel hbuf hint
    rw [UnconvtLoop] at hbuf hint ⊢
    by_cases hi : i < len
    · rw [if_pos hi] at hbuf hint ⊢
      by_cases hesc : buf.getD i 0 = 0x34
      · rw [if_pos hesc] at hbuf hint ⊢
        have hle := le_UnconvtLoop buf len fuel (i + 2) (out ++ [~~~(buf.getD (i + 1) 0)])
        rw [UnconvtReads_esc hi (by omega) (by omega) hesc]
        exact ih (i + 2) _ (by omega) hbuf hint
      · rw [if_neg hesc] at hbuf hint ⊢
        have hle := le_UnconvtLoop buf len fuel (i + 1) (out ++ [buf.getD i 0])
        rw [UnconvtReads_plain hi (by omega) (by omega) hesc]
        exact ih (i + 1) _ (by omega) hbuf hint
    · rw [if_neg hi, UnconvtReads, if_neg hi]

/-- A region with one byte behind it. -/
theorem UnconvtCall_tail {y : List UInt8} (t : UInt8) (hy : y.length < INT_MAX) :
    UnconvtCall (y ++ [t]) y.length = some (unstuff t y) := by
  have hle := UnconvtCode_fst_le y t []
  have hread := UnconvtCode_snd y t []
  have hbuf : (y ++ [t]).length = y.length + 1 := by rw [List.length_append, List.length_singleton]
  rw [UnconvtCall, UnconvtReads_eq _ _ _ (by omega)]
  · exact congrArg some hread
  · rw [hbuf]
    exact hle
  · exact Nat.le_trans hle hy

/-- The rest of a stuffed text. -/
theorem UnconvtReads_stuff (x : List UInt8) (fuel : Nat) : ∀ (done out : List UInt8),
    (stuff x).length ≤ fuel → done.length + (stuff x).length ≤ INT_MAX →
    UnconvtReads (done ++ stuff x) (done.length + (stuff x).length) fuel done.length out = some (out ++ x) := by
  induction x generalizing fuel with
  | nil =>
    intro done out _ _
    have hend : ¬done.length < done.length + (stuff []).length := Nat.lt_irrefl _
    rw [List.append_nil]
    cases fuel with
    | zero => exact if_neg hend
    | succ fuel => exact if_neg hend
  | cons c x ih =>
    intro done out hfuel hint
    obtain ⟨fuel, rfl⟩ : ∃ n, fuel = n + 1 := ⟨fuel - 1, by
      have hpos : 0 < (stuff (c :: x)).length := by
        rw [stuff, Stuffing.stuff_length, List.length_cons]
        omega
      omega⟩
    by_cases hc : needsConvt c = true
    · have hstuff : stuff (c :: x) = [0x34, ~~~c] ++ stuff x := stuff_special hc x
      have hlen : (stuff (c :: x)).length = 2 + (stuff x).length := by
        rw [hstuff, List.length_append]
        rfl
      have hesc : (done ++ stuff (c :: x)).getD done.length 0 = 0x34 := by
        rw [hstuff]
        simp
      have hnext : (done ++ stuff (c :: x)).getD (done.length + 1) 0 = ~~~c := by
        rw [hstuff]
        simp
      have hrest := ih fuel (done ++ [0x34, ~~~c]) (out ++ [c]) (by omega) (by
        rw [List.length_append]
        change done.length + 2 + _ ≤ _
        omega)
      rw [UnconvtReads_esc (by omega) (by rw [List.length_append]; omega) (by omega) hesc, hnext, UInt8.not_not]
      rw [List.length_append, List.append_assoc, ← hstuff, List.append_assoc] at hrest
      have hplace : done.length + (stuff (c :: x)).length = done.length + 2 + (stuff x).length := by omega
      rw [hplace]
      exact hrest
    · have hstuff : stuff (c :: x) = [c] ++ stuff x := stuff_plain hc x
      have hlen : (stuff (c :: x)).length = 1 + (stuff x).length := by
        rw [hstuff, List.length_append]
        rfl
      have hget : (done ++ stuff (c :: x)).getD done.length 0 = c := by
        rw [hstuff]
        simp
      have hesc : c ≠ 0x34 := fun heq => hc (heq ▸ convt_code.esc_special)
      have hrest := ih fuel (done ++ [c]) (out ++ [c]) (by omega) (by
        rw [List.length_append]
        change done.length + 1 + _ ≤ _
        omega)
      rw [UnconvtReads_plain (by omega) (by rw [List.length_append]; omega) (by omega) (by rw [hget]; exact hesc), hget]
      rw [List.length_append, List.append_assoc, ← hstuff, List.append_assoc] at hrest
      have hplace : done.length + (stuff (c :: x)).length = done.length + 1 + (stuff x).length := by omega
      rw [hplace]
      exact hrest

theorem UnconvtCall_stuff {x : List UInt8} (h : (stuff x).length ≤ INT_MAX) :
    UnconvtCall (stuff x) (stuff x).length = some x := by
  have hrun := UnconvtReads_stuff x (stuff x).length [] [] (Nat.le_refl _) (by rwa [List.length_nil, Nat.zero_add])
  rw [List.length_nil, Nat.zero_add] at hrun
  exact hrun

theorem stuffed_iff (x : List UInt8) : Stuffed x ↔ x.length + x.countP needsConvt ≤ INT_MAX := by
  constructor
  · intro hstuffed
    obtain ⟨out, hcall, -⟩ := hstuffed
    by_contra hlong
    rw [ConvtCall_eq, if_neg hlong] at hcall
    cases hcall
  · intro hfits
    have hlen : (stuff x).length = x.length + x.countP needsConvt := Stuffing.stuff_length ..
    have hspecial : ∀ b : UInt8, needsConvt b = true → b ≠ 0x34 → b ∉ stuff x :=
      fun b hb hne hmem => hne (Stuffing.special_mem_stuff _ _ _ convt_code hmem hb)
    have hcount : x.countP needsConvt ≤ x.length := List.countP_le_length
    refine ⟨stuff x, ?_, UnconvtCall_stuff (hlen ▸ hfits), ?_, tail_not_mem_stuff x, ?_, ?_⟩
    · rw [ConvtCall_eq, if_pos hfits]
    · exact hspecial _ (by decide) (by decide)
    · omega
    · omega

/-- **Byte stuffing.** A byte string comes back, without a flag in what is between, when the number
of the bytes that are written for it is an `int`. A region of any bytes is read up to the byte
behind it and no further. -/
theorem stuffing_calls : (∀ x : List UInt8, Stuffed x ↔ x.length + x.countP needsConvt ≤ INT_MAX) ∧
    ∀ (y : List UInt8) (t : UInt8), y.length < INT_MAX → (UnconvtCall (y ++ [t]) y.length).isSome :=
  ⟨stuffed_iff, fun y t hy => by rw [UnconvtCall_tail t hy]; rfl⟩

/-- 2^30 bytes of which each is escaped. -/
theorem not_stuffed_flags : ¬∀ x : List UInt8, x.length ≤ INT_MAX → Stuffed x := by
  intro h
  have hlen : (List.replicate 1073741824 (0x7D : UInt8)).length = 1073741824 := List.length_replicate
  have hcount : (List.replicate 1073741824 (0x7D : UInt8)).countP needsConvt = 1073741824 := by
    rw [List.countP_replicate, if_pos (by decide)]
  have hfits := (stuffed_iff _).mp (h (List.replicate 1073741824 0x7D) (by rw [hlen]; decide))
  rw [hlen, hcount] at hfits
  exact absurd hfits (by decide)

end Perception.Net
