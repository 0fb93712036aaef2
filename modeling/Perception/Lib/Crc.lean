import Mathlib.Data.List.GetD
import Mathlib.Tactic.ByContra

/-!
# Cyclic redundancy checks, bit by bit

The register is shifted by one place for each bit of the message, the most significant first,
and the polynomial is added when the bit that is shifted out and the bit of the message differ.
A step is linear in exclusive or, so that the registers of two messages differ as the register of
their difference does. A polynomial whose constant term is one loses nothing: the register is
zero only where the bits that are still in it were zero.
-/
namespace Perception.Lib.Crc

set_option autoImplicit false

variable {w : Nat} (poly : BitVec w)

def feed (reg : BitVec w) (bit : Bool) : BitVec w :=
  if reg.msb = bit then reg <<< 1 else (reg <<< 1) ^^^ poly

def feedAll (reg : BitVec w) (bits : List Bool) : BitVec w := bits.foldl (feed poly) reg

/-- The check of a message, from the register zero and without a change at the end. -/
def crc (bits : List Bool) : BitVec w := feedAll poly 0#w bits

/-- Where two messages differ. -/
def difference (xs ys : List Bool) : List Bool := List.zipWith (· ^^ ·) xs ys

theorem feed_xor (s t : BitVec w) (b c : Bool) : feed poly (s ^^^ t) (b ^^ c) = feed poly s b ^^^ feed poly t c := by
  have hmsb : (s ^^^ t).msb = (s.msb ^^ t.msb) := BitVec.msb_xor
  have hshift : (s ^^^ t) <<< 1 = (s <<< 1) ^^^ (t <<< 1) := BitVec.shiftLeft_xor_distrib s t 1
  have hcancel (x y : BitVec w) : x ^^^ poly ^^^ (y ^^^ poly) = x ^^^ y := by
    rw [BitVec.xor_assoc, BitVec.xor_comm y, ← BitVec.xor_assoc poly, BitVec.xor_self, BitVec.zero_xor]
  have hright (x y : BitVec w) : x ^^^ (y ^^^ poly) = x ^^^ y ^^^ poly := (BitVec.xor_assoc x y poly).symm
  have hleft (x y : BitVec w) : x ^^^ poly ^^^ y = x ^^^ y ^^^ poly := by
    rw [BitVec.xor_assoc, BitVec.xor_comm poly, hright]
  unfold feed
  rw [hmsb, hshift]
  cases s.msb <;> cases t.msb <;> cases b <;> cases c <;> simp [hcancel, hright, hleft]

theorem feedAll_xor (s t : BitVec w) {xs ys : List Bool} (hlen : xs.length = ys.length) :
    feedAll poly (s ^^^ t) (difference xs ys) = feedAll poly s xs ^^^ feedAll poly t ys := by
  induction xs generalizing s t ys with
  | nil =>
    obtain rfl := List.eq_nil_of_length_eq_zero hlen.symm
    rfl
  | cons x xs ih =>
    cases ys with
    | nil => cases hlen
    | cons y ys =>
      have htail := ih (feed poly s x) (feed poly t y) (Nat.succ.inj hlen)
      rw [← feed_xor] at htail
      exact htail

theorem feedAll_append (s : BitVec w) (xs ys : List Bool) :
    feedAll poly s (xs ++ ys) = feedAll poly (feedAll poly s xs) ys := List.foldl_append

theorem feed_zero : feed poly 0#w false = 0#w := by
  rw [feed, if_pos BitVec.msb_zero, BitVec.zero_shiftLeft]

theorem feedAll_zeros (n : Nat) : feedAll poly 0#w (List.replicate n false) = 0#w := by
  induction n with
  | zero => rfl
  | succ n ih =>
    rw [List.replicate_succ, feedAll, List.foldl_cons, feed_zero]
    exact ih

variable {poly}

/-- A register that becomes zero has held exactly the bits that came. -/
theorem getMsbD_of_feedAll (hpoly : poly.getLsbD 0 = true) {bits : List Bool} {reg : BitVec w} (hle : bits.length ≤ w)
    (h : feedAll poly reg bits = 0#w) (i : Nat) : reg.getMsbD i = bits.getD i false := by
  induction bits generalizing reg i with
  | nil =>
    obtain rfl : reg = 0#w := h
    simp
  | cons b bs ih =>
    rw [List.length_cons] at hle
    have hnext : ∀ i, (feed poly reg b).getMsbD i = bs.getD i false := ih (by omega) h
    -- The lowest place of the new register is behind the bits, so the polynomial was not added.
    have hlow : (feed poly reg b).getLsbD 0 = false := by
      have hlast := hnext (w - 1)
      rw [BitVec.getMsbD_eq_getLsbD, List.getD_eq_default _ _ (by omega)] at hlast
      have hpos : decide (w - 1 < w) = true := decide_eq_true (by omega)
      have hplace : w - 1 - (w - 1) = 0 := by omega
      rwa [hpos, Bool.true_and, hplace] at hlast
    have hmsb : reg.msb = b := by
      by_contra hne
      rw [feed, if_neg hne, BitVec.getLsbD_xor, hpoly] at hlow
      have hshift : (reg <<< 1).getLsbD 0 = false := by simp
      rw [hshift] at hlow
      cases hlow
    cases i with
    | zero =>
      rw [← BitVec.msb_eq_getMsbD_zero, hmsb]
      rfl
    | succ i =>
      have hi := hnext i
      rw [feed, if_pos hmsb, BitVec.getMsbD_shiftLeft, Nat.add_comm] at hi
      by_cases hw : 1 + i < w
      · simpa [Nat.add_comm] using hi
      · have hout : reg.getMsbD (i + 1) = false := by
          rw [BitVec.getMsbD_eq_getLsbD, decide_eq_false (by omega), Bool.false_and]
        rw [hout, List.getD_eq_default _ _ (by rw [List.length_cons]; omega)]

theorem eq_zero_of_feedAll_zeros (hpoly : poly.getLsbD 0 = true) (n : Nat) {reg : BitVec w}
    (h : feedAll poly reg (List.replicate n false) = 0#w) : reg = 0#w := by
  have hpos : 1 ≤ w := by
    by_contra hlt
    obtain rfl : w = 0 := by omega
    rw [BitVec.getLsbD_of_ge _ _ (Nat.le_refl 0)] at hpoly
    cases hpoly
  induction n generalizing reg with
  | zero => exact h
  | succ n ih =>
    have hfeed : feedAll poly reg [false] = 0#w := ih h
    apply BitVec.eq_of_getMsbD_eq
    intro i hi
    have hbit := getMsbD_of_feedAll hpoly (by rwa [List.length_singleton]) hfeed i
    rw [hbit]
    cases i <;> simp

theorem eq_zeros {bits : List Bool} (h : ∀ i, bits.getD i false = false) : bits = List.replicate bits.length false := by
  apply List.eq_replicate_iff.mpr
  refine ⟨rfl, fun b hb => ?_⟩
  obtain ⟨i, hi, rfl⟩ := List.mem_iff_getElem.mp hb
  rw [← h i, List.getD_eq_getElem _ _ hi]

/-- Zeros behind the first `k + w` bits, and in front of the last `w` of them. -/
theorem eq_zeros_of_feedAll (hpoly : poly.getLsbD 0 = true) {bits : List Bool} {k : Nat}
    (hclear : ∀ i, ¬(k ≤ i ∧ i < k + w) → bits.getD i false = false) (h : feedAll poly 0#w bits = 0#w) :
    bits = List.replicate bits.length false := by
  have hfront : bits.take k = List.replicate (bits.take k).length false := by
    apply eq_zeros
    intro i
    by_cases hi : i < k
    · have hbit := hclear i (by omega)
      simpa [List.getD_eq_getElem?_getD, List.getElem?_take, hi] using hbit
    · have hpast : (bits.take k).length ≤ i := by rw [List.length_take]; omega
      exact List.getD_eq_default _ _ hpast
  have hbehind : bits.drop (k + w) = List.replicate (bits.drop (k + w)).length false := by
    apply eq_zeros
    intro i
    have hbit := hclear (k + w + i) (by omega)
    simpa [List.getD_eq_getElem?_getD, List.getElem?_drop] using hbit
  have hsplit : bits = bits.take k ++ ((bits.drop k).take w ++ bits.drop (k + w)) := by
    rw [← List.append_assoc, ← List.take_add, List.take_append_drop]
  rw [hsplit, hfront, hbehind, feedAll_append, feedAll_append, feedAll_zeros] at h
  have hburst := eq_zero_of_feedAll_zeros hpoly _ h
  apply eq_zeros
  intro i
  by_cases hi : k ≤ i ∧ i < k + w
  · have hbit := getMsbD_of_feedAll hpoly (by rw [List.length_take]; omega) hburst (i - k)
    have hplace : k + (i - k) = i := by omega
    have hlt : i - k < w := by omega
    have hwindow : ((bits.drop k).take w).getD (i - k) false = bits.getD i false := by
      simp only [List.getD_eq_getElem?_getD, List.getElem?_take, List.getElem?_drop, hplace, if_pos hlt]
    rw [← hwindow, ← hbit, BitVec.getMsbD_zero]
  · exact hclear i hi

/-- **Bursts.** Two messages of one length that differ, and only within `w` consecutive bits, have
different checks. -/
theorem crc_ne_of_burst (hpoly : poly.getLsbD 0 = true) {xs ys : List Bool} (hlen : xs.length = ys.length)
    (hne : xs ≠ ys) {k : Nat} (hburst : ∀ i, xs.getD i false ≠ ys.getD i false → k ≤ i ∧ i < k + w) :
    crc poly xs ≠ crc poly ys := by
  intro heq
  have hlength : (difference xs ys).length = xs.length := by
    rw [difference, List.length_zipWith]
    omega
  have hget (i : Nat) : (difference xs ys).getD i false = (xs.getD i false ^^ ys.getD i false) := by
    by_cases hi : i < xs.length
    · rw [List.getD_eq_getElem _ _ (hlength ▸ hi), List.getD_eq_getElem _ _ hi, List.getD_eq_getElem _ _ (hlen ▸ hi)]
      exact List.getElem_zipWith ..
    · rw [List.getD_eq_default _ _ (by omega), List.getD_eq_default _ _ (by omega),
        List.getD_eq_default _ _ (by omega)]
      rfl
  have hzero : feedAll poly 0#w (difference xs ys) = 0#w := by
    have hxor := feedAll_xor poly 0#w 0#w hlen
    unfold crc at heq
    rwa [heq, BitVec.xor_self, BitVec.xor_self] at hxor
  have hclear : ∀ i, ¬(k ≤ i ∧ i < k + w) → (difference xs ys).getD i false = false := by
    intro i hi
    rw [hget, by_contra fun hdiff => hi (hburst i hdiff), Bool.xor_self]
  have hsame := eq_zeros_of_feedAll hpoly hclear hzero
  apply hne
  apply List.ext_getElem hlen
  intro i hi hi'
  have hbit := hget i
  rw [hsame, List.getD_replicate _ (by omega), List.getD_eq_getElem _ _ hi, List.getD_eq_getElem _ _ hi'] at hbit
  exact bne_eq_false_iff_eq.mp hbit.symm

end Perception.Lib.Crc
