import Mathlib.Data.Rat.Floor
import Mathlib.Tactic.Linarith

/-!
# Rationals kept as integers

A number that is computed as a rational and stored as an integer, by cutting its fraction off.
-/
namespace Perception.Lib

set_option autoImplicit false

/-- Towards zero. -/
def truncate (q : ℚ) : ℤ := if 0 ≤ q then ⌊q⌋ else ⌈q⌉

theorem truncate_of_nonneg {q : ℚ} (h : 0 ≤ q) : truncate q = ⌊q⌋ := if_pos h

theorem truncate_intCast (n : ℤ) : truncate n = n := by
  unfold truncate
  split
  · exact Int.floor_intCast n
  · exact Int.ceil_intCast n

theorem truncate_natCast (n : Nat) : truncate n = n := truncate_intCast n

theorem truncate_nonneg {q : ℚ} (h : 0 ≤ q) : 0 ≤ truncate q := by
  rw [truncate_of_nonneg h]
  exact Int.floor_nonneg.mpr h

theorem truncate_pos {q : ℚ} : 0 < truncate q ↔ 1 ≤ q := by
  unfold truncate
  split
  · exact Int.floor_pos
  · rename_i hneg
    have hceil : ⌈q⌉ ≤ 0 := Int.ceil_le.mpr (by rw [Int.cast_zero]; exact (not_le.mp hneg).le)
    exact iff_of_false hceil.not_gt fun h => hneg (zero_le_one.trans h)

theorem truncate_neg {q : ℚ} : truncate q < 0 ↔ q ≤ -1 := by
  unfold truncate
  split
  · rename_i hpos
    exact iff_of_false (Int.floor_nonneg.mpr hpos).not_gt fun h => by linarith
  · rw [← Int.le_sub_one_iff, Int.ceil_le]
    norm_num

/-- Two parts of a length, each scaled and cut, are no longer than the length scaled and cut. -/
theorem truncate_mul_add_le {a b n : ℤ} {scale : ℚ} (hscale : 0 ≤ scale) (ha : 0 ≤ a) (hb : 0 ≤ b) (hn : a + b ≤ n) :
    truncate (a * scale) + truncate (b * scale) ≤ truncate (n * scale) := by
  have hmul : ∀ m : ℤ, 0 ≤ m → (0 : ℚ) ≤ m * scale := fun m hm => mul_nonneg (by exact_mod_cast hm) hscale
  have hsum : (a : ℚ) * scale + b * scale ≤ n * scale := by
    rw [← add_mul]
    exact mul_le_mul_of_nonneg_right (by exact_mod_cast hn) hscale
  rw [truncate_of_nonneg (hmul a ha), truncate_of_nonneg (hmul b hb), truncate_of_nonneg (hmul n (by omega))]
  exact (Int.le_floor_add _ _).trans (Int.floor_le_floor hsum)

theorem truncate_natCast_div (a b : Nat) : truncate ((a : ℚ) / b) = ((a / b : Nat) : ℤ) := by
  rw [truncate_of_nonneg (by positivity), Rat.floor_natCast_div_natCast, Int.natCast_ediv]

theorem truncate_natCast_mul_div (n a b : Nat) : truncate (n * ((a : ℚ) / b)) = ((n * a / b : Nat) : ℤ) := by
  rw [← mul_div_assoc, ← Nat.cast_mul, truncate_natCast_div]

/-- The values of an integer that starts at `x` and to which `dx` is added again and again. -/
def advance (dx : ℚ) : Nat → ℤ → List ℤ
  | 0, _ => []
  | n + 1, x => x :: advance dx n (truncate (x + dx))

theorem advance_eq_map {dx : ℚ} (hdx : 0 ≤ dx) (n : Nat) {x : ℤ} (hx : 0 ≤ x) :
    advance dx n x = (List.range n).map fun i : Nat => x + i * ⌊dx⌋ := by
  induction n generalizing x with
  | zero => rfl
  | succ n ih =>
    have hsum : (0 : ℚ) ≤ x + dx := by
      have : (0 : ℚ) ≤ x := by exact_mod_cast hx
      linarith
    have hnext : truncate (x + dx) = x + ⌊dx⌋ := by
      rw [truncate_of_nonneg hsum, Int.floor_intCast_add]
    have hfloor : 0 ≤ ⌊dx⌋ := Int.floor_nonneg.mpr hdx
    rw [advance, hnext, ih (by linarith), List.range_succ_eq_map, List.map_cons, List.map_map]
    congr 1
    · simp
    · apply List.map_congr_left
      intro i _
      simp only [Function.comp_apply, Nat.cast_succ]
      ring

theorem mem_advance_zero {dx : ℚ} (hdx : 0 ≤ dx) {n : Nat} {x : ℤ} :
    x ∈ advance dx n 0 ↔ ∃ i : Nat, i < n ∧ x = i * ⌊dx⌋ := by
  rw [advance_eq_map hdx n (le_refl 0), List.mem_map]
  simp only [List.mem_range, zero_add, eq_comm]

/-- How often the body of `for (int i = 0; i < k; i++)` runs. -/
def turns (k : ℚ) : Nat := ⌈k⌉₊

theorem lt_turns {k : ℚ} {i : Nat} : i < turns k ↔ (i : ℚ) < k := Nat.lt_ceil

end Perception.Lib
