import Perception.Lib.Stuffing

/-!
# Escape conversion of `Convt.h`

`ConvtCode` and `UnconvtCode` as the source computes them, and their agreement with
escape stuffing over bytes.
-/
namespace Perception.Net

set_option autoImplicit false

open Perception.Lib

/-- The bytes that `ConvtCode` replaces. -/
def needsConvt (u8Temp : UInt8) : Bool := u8Temp == 0x7D || u8Temp == 0x0B || u8Temp == 0x34

/-- The bytes written to `pu8OutBuf`; the returned length is their number. -/
def ConvtCode (pu8InBuf : List UInt8) : List UInt8 :=
  pu8InBuf.foldl (fun pu8OutBuf u8Temp =>
    if needsConvt u8Temp then pu8OutBuf ++ [0x34, ~~~u8Temp] else pu8OutBuf ++ [u8Temp]) []

/-- The loop of `UnconvtCode` from index `i`: the final index, which is the number of
bytes read, and the bytes written. An index outside the buffer reads as zero. -/
def UnconvtLoop (pu8InBuf : List UInt8) (s32InBufLen : Nat) : Nat → Nat → List UInt8 → Nat × List UInt8
  | 0, i, pu8OutBuf => (i, pu8OutBuf)
  | fuel + 1, i, pu8OutBuf =>
    if i < s32InBufLen then
      if pu8InBuf.getD i 0 = 0x34 then
        UnconvtLoop pu8InBuf s32InBufLen fuel (i + 2) (pu8OutBuf ++ [~~~(pu8InBuf.getD (i + 1) 0)])
      else
        UnconvtLoop pu8InBuf s32InBufLen fuel (i + 1) (pu8OutBuf ++ [pu8InBuf.getD i 0])
    else (i, pu8OutBuf)

def UnconvtCode (pu8InBuf : List UInt8) (s32InBufLen : Nat) : Nat × List UInt8 :=
  UnconvtLoop pu8InBuf s32InBufLen s32InBufLen 0 []

/-- Stuffing with the escape byte 0x34 and the complement. -/
abbrev stuff : List UInt8 → List UInt8 := Stuffing.stuff 0x34 needsConvt (~~~ ·)

/-- Unstuffing; `next` is the byte behind the input. -/
abbrev unstuff : UInt8 → List UInt8 → List UInt8 := Stuffing.unstuff 0x34 (~~~ ·)

/-- The number of escape pairs inside the input. -/
abbrev escapePairs : List UInt8 → Nat := Stuffing.pairs 0x34

theorem convt_code : Stuffing.Code 0x34 needsConvt (~~~ · : UInt8 → UInt8) where
  esc_special := by decide
  flip_flip := fun x => UInt8.not_not
  flip_plain := by
    intro x hx
    simp only [needsConvt, Bool.or_eq_true, beq_iff_eq] at hx
    rcases hx with (rfl | rfl) | rfl <;> decide

theorem ConvtCode_eq_stuff (xs : List UInt8) : ConvtCode xs = stuff xs := by
  have hacc : ∀ out : List UInt8, xs.foldl (fun pu8OutBuf u8Temp =>
      if needsConvt u8Temp then pu8OutBuf ++ [0x34, ~~~u8Temp] else pu8OutBuf ++ [u8Temp]) out =
        out ++ stuff xs := by
    induction xs with
    | nil => simp [stuff, Stuffing.stuff]
    | cons x xs ih =>
      intro out
      rw [List.foldl_cons, ih, stuff, Stuffing.stuff]
      by_cases hx : needsConvt x = true <;> simp [hx]
  exact (hacc []).trans (List.nil_append _)

theorem tail_not_mem_stuff (xs : List UInt8) : (0x0B : UInt8) ∉ stuff xs := fun h =>
  absurd (Stuffing.special_mem_stuff _ _ _ convt_code h (by decide)) (by decide)

/-- The loop from index `i` decodes the rest of the region and reads at most one byte
behind it. The induction is on the fuel; each turn moves the index. -/
theorem UnconvtLoop_eq (t : UInt8) (zs : List UInt8) (fuel : Nat) :
    ∀ (done ys out : List UInt8) (i len : Nat),
      i = done.length → len = i + ys.length → ys.length ≤ fuel →
      (UnconvtLoop (done ++ (ys ++ t :: zs)) len fuel i out).2 = out ++ unstuff t ys ∧
        (UnconvtLoop (done ++ (ys ++ t :: zs)) len fuel i out).1 ≤ len + 1 := by
  induction fuel with
  | zero =>
    intro done ys out i len hi hlen hf
    obtain rfl := List.length_eq_zero_iff.mp (Nat.le_zero.mp hf)
    simp only [UnconvtLoop, unstuff, Stuffing.unstuff_nil, List.append_nil, true_and]
    simp at hlen
    omega
  | succ fuel ih =>
    intro done ys out i len hi hlen hf
    cases ys with
    | nil => simp_all [UnconvtLoop]
    | cons x ys =>
      have hx : (done ++ (x :: ys ++ t :: zs)).getD i 0 = x := by simp [hi]
      simp only [List.length_cons] at hlen hf
      rw [UnconvtLoop, if_pos (by omega), hx]
      by_cases he : x = 0x34
      · rw [if_pos he]
        cases ys with
        | nil =>
          -- the escape is the last byte of the region: the loop reads the byte behind it
          have ht : (done ++ ([x] ++ t :: zs)).getD (i + 1) 0 = t := by
            simp [hi]
          rw [ht]
          simp only [List.length_nil] at hlen
          cases fuel with
          | zero => simp [UnconvtLoop, he, unstuff, Stuffing.unstuff]; omega
          | succ fuel =>
            rw [UnconvtLoop, if_neg (by omega)]
            simp [he, unstuff, Stuffing.unstuff]
            omega
        | cons y ys =>
          have hy : (done ++ (x :: y :: ys ++ t :: zs)).getD (i + 1) 0 = y := by
            simp [hi]
          simp only [List.length_cons] at hlen hf
          have h := ih (done ++ [x, y]) ys (out ++ [~~~y]) (i + 2) len (by simp; omega)
            (by omega) (by omega)
          have hb : done ++ [x, y] ++ (ys ++ t :: zs) = done ++ (x :: y :: ys ++ t :: zs) := by
            simp
          rw [hb] at h
          rw [hy, he, unstuff, Stuffing.unstuff_esc]
          rw [he] at h
          simpa using h
      · rw [if_neg he]
        have h := ih (done ++ [x]) ys (out ++ [x]) (i + 1) len (by simp; omega)
          (by omega) (by omega)
        have hb : done ++ [x] ++ (ys ++ t :: zs) = done ++ (x :: ys ++ t :: zs) := by simp
        rw [hb] at h
        rw [unstuff, Stuffing.unstuff_plain 0x34 (~~~ ·) he]
        simpa using h

/-- `UnconvtCode` on a region followed by the byte `t` writes the unstuffed region. -/
theorem UnconvtCode_snd (ys : List UInt8) (t : UInt8) (zs : List UInt8) :
    (UnconvtCode (ys ++ t :: zs) ys.length).2 = unstuff t ys := by
  have h := UnconvtLoop_eq t zs ys.length [] ys [] 0 ys.length rfl (by simp) le_rfl
  simpa [UnconvtCode] using h.1

/-- It reads at most the byte behind the region. -/
theorem UnconvtCode_fst_le (ys : List UInt8) (t : UInt8) (zs : List UInt8) :
    (UnconvtCode (ys ++ t :: zs) ys.length).1 ≤ ys.length + 1 := by
  have h := UnconvtLoop_eq t zs ys.length [] ys [] 0 ys.length rfl (by simp) le_rfl
  simpa [UnconvtCode] using h.2

end Perception.Net
