import Mathlib.Algebra.Order.Field.Basic
import Mathlib.Algebra.Order.Ring.Abs
import Mathlib.Tactic.LinearCombination
import Mathlib.Tactic.Positivity
import Mathlib.Tactic.Ring

/-!
# Fitting a similarity

Rotations with a scale and a shift, `(x, y) ↦ (x * a - y * b + c₁, x * b + y * a + c₂)`, and how
far they take the sources of some pairs of points from their targets. The cost of any such map is
that of the fitted one and three squares more.
-/
namespace Perception.Lib.Similarity

set_option autoImplicit false

variable {K : Type} [Field K]

structure Map (K : Type) where
  a : K
  b : K
  c₁ : K
  c₂ : K

def Map.apply (f : Map K) (p : K × K) : K × K := (p.1 * f.a - p.2 * f.b + f.c₁, p.1 * f.b + p.2 * f.a + f.c₂)

/-- A source and its target. -/
abbrev Pair (K : Type) := (K × K) × (K × K)

def total (g : Pair K → K) (l : List (Pair K)) : K := (l.map g).sum

/-- The squared distance of an image and the target. -/
def distance (f : Map K) (q : Pair K) : K := ((f.apply q.1).1 - q.2.1) ^ 2 + ((f.apply q.1).2 - q.2.2) ^ 2

def cost (f : Map K) (l : List (Pair K)) : K := total (distance f) l

/-- The squared distance of the sources from `m`. -/
def energy (m : K × K) (l : List (Pair K)) : K := total (fun q => (q.1.1 - m.1) ^ 2 + (q.1.2 - m.2) ^ 2) l

def dot (m m' : K × K) (l : List (Pair K)) : K :=
  total (fun q => (q.1.1 - m.1) * (q.2.1 - m'.1) + (q.1.2 - m.2) * (q.2.2 - m'.2)) l

def cross (m m' : K × K) (l : List (Pair K)) : K :=
  total (fun q => (q.1.1 - m.1) * (q.2.2 - m'.2) - (q.1.2 - m.2) * (q.2.1 - m'.1)) l

/-- The fit around the means `m` and `m'` of the sources and the targets. -/
structure IsFit (l : List (Pair K)) (m m' : K × K) (f : Map K) : Prop where
  mean₁ : l.length * m.1 = total (fun q => q.1.1) l
  mean₂ : l.length * m.2 = total (fun q => q.1.2) l
  mean₁' : l.length * m'.1 = total (fun q => q.2.1) l
  mean₂' : l.length * m'.2 = total (fun q => q.2.2) l
  a_mul : f.a * energy m l = dot m m' l
  b_mul : f.b * energy m l = cross m m' l
  c₁_eq : f.c₁ = m'.1 - (m.1 * f.a - m.2 * f.b)
  c₂_eq : f.c₂ = m'.2 - (m.1 * f.b + m.2 * f.a)

section Moments

variable (l : List (Pair K))

theorem energy_eq (m : K × K) : energy m l = total (fun q => q.1.1 ^ 2 + q.1.2 ^ 2) l -
    2 * (m.1 * total (fun q => q.1.1) l + m.2 * total (fun q => q.1.2) l) + l.length * (m.1 ^ 2 + m.2 ^ 2) := by
  induction l with
  | nil => simp [energy, total]
  | cons q l ih =>
    simp only [energy, total, List.map_cons, List.sum_cons, List.length_cons, Nat.cast_succ] at ih ⊢
    rw [ih]
    ring

theorem dot_eq (m m' : K × K) : dot m m' l = total (fun q => q.1.1 * q.2.1 + q.1.2 * q.2.2) l -
    (m.1 * total (fun q => q.2.1) l + m.2 * total (fun q => q.2.2) l) -
    (m'.1 * total (fun q => q.1.1) l + m'.2 * total (fun q => q.1.2) l) + l.length * (m.1 * m'.1 + m.2 * m'.2) := by
  induction l with
  | nil => simp [dot, total]
  | cons q l ih =>
    simp only [dot, total, List.map_cons, List.sum_cons, List.length_cons, Nat.cast_succ] at ih ⊢
    rw [ih]
    ring

theorem cross_eq (m m' : K × K) : cross m m' l = total (fun q => q.1.1 * q.2.2 - q.1.2 * q.2.1) l -
    (m.1 * total (fun q => q.2.2) l - m.2 * total (fun q => q.2.1) l) -
    (m'.2 * total (fun q => q.1.1) l - m'.1 * total (fun q => q.1.2) l) + l.length * (m.1 * m'.2 - m.2 * m'.1) := by
  induction l with
  | nil => simp [cross, total]
  | cons q l ih =>
    simp only [cross, total, List.map_cons, List.sum_cons, List.length_cons, Nat.cast_succ] at ih ⊢
    rw [ih]
    ring

theorem cost_eq (f : Map K) : cost f l =
    (f.a ^ 2 + f.b ^ 2) * total (fun q => q.1.1 ^ 2 + q.1.2 ^ 2) l + total (fun q => q.2.1 ^ 2 + q.2.2 ^ 2) l +
    l.length * (f.c₁ ^ 2 + f.c₂ ^ 2) - 2 * f.a * total (fun q => q.1.1 * q.2.1 + q.1.2 * q.2.2) l -
    2 * f.b * total (fun q => q.1.1 * q.2.2 - q.1.2 * q.2.1) l +
    2 * f.c₁ * (f.a * total (fun q => q.1.1) l - f.b * total (fun q => q.1.2) l) +
    2 * f.c₂ * (f.b * total (fun q => q.1.1) l + f.a * total (fun q => q.1.2) l) -
    2 * f.c₁ * total (fun q => q.2.1) l - 2 * f.c₂ * total (fun q => q.2.2) l := by
  induction l with
  | nil => simp [cost, total]
  | cons q l ih =>
    simp only [cost, distance, Map.apply, total, List.map_cons, List.sum_cons, List.length_cons, Nat.cast_succ] at ih ⊢
    rw [ih]
    ring

end Moments

variable {l : List (Pair K)} {m m' : K × K} {f : Map K}

/-- What another map costs more. -/
theorem IsFit.cost_eq (h : IsFit l m m' f) (g : Map K) :
    cost g l = cost f l + energy m l * ((g.a - f.a) ^ 2 + (g.b - f.b) ^ 2) +
      l.length * ((m.1 * g.a - m.2 * g.b + g.c₁ - m'.1) ^ 2 + (m.1 * g.b + m.2 * g.a + g.c₂ - m'.2) ^ 2) := by
  have henergy := energy_eq l m
  have hdot := h.a_mul
  have hcross := h.b_mul
  rw [dot_eq, ← h.mean₁, ← h.mean₂, ← h.mean₁', ← h.mean₂'] at hdot
  rw [cross_eq, ← h.mean₁, ← h.mean₂, ← h.mean₁', ← h.mean₂'] at hcross
  rw [← h.mean₁, ← h.mean₂] at henergy
  rw [Similarity.cost_eq l g, Similarity.cost_eq l f, ← h.mean₁, ← h.mean₂, ← h.mean₁', ← h.mean₂', h.c₁_eq, h.c₂_eq]
  have hsources : total (fun q => q.1.1 ^ 2 + q.1.2 ^ 2) l = energy m l + l.length * (m.1 ^ 2 + m.2 ^ 2) := by
    linear_combination -henergy
  have hproducts : total (fun q => q.1.1 * q.2.1 + q.1.2 * q.2.2) l =
      f.a * energy m l + l.length * (m.1 * m'.1 + m.2 * m'.2) := by
    linear_combination -hdot
  have hareas : total (fun q => q.1.1 * q.2.2 - q.1.2 * q.2.1) l =
      f.b * energy m l + l.length * (m.1 * m'.2 - m.2 * m'.1) := by
    linear_combination -hcross
  rw [hsources, hproducts, hareas]
  ring

section Ordered

variable [LinearOrder K] [IsStrictOrderedRing K]

theorem total_nonneg {g : Pair K → K} (h : ∀ q, 0 ≤ g q) (l : List (Pair K)) : 0 ≤ total g l := by
  unfold total
  apply List.sum_nonneg
  intro x hx
  obtain ⟨q, -, rfl⟩ := List.mem_map.mp hx
  exact h q

theorem distance_nonneg (f : Map K) (q : Pair K) : 0 ≤ distance f q := by
  unfold distance
  positivity

theorem energy_nonneg (m : K × K) (l : List (Pair K)) : 0 ≤ energy m l :=
  total_nonneg (fun q => by positivity) l

/-- The fitted map is the best one. -/
theorem IsFit.cost_le (h : IsFit l m m' f) (g : Map K) : cost f l ≤ cost g l := by
  have henergy := energy_nonneg m l
  rw [h.cost_eq g, add_assoc]
  apply le_add_of_nonneg_right
  positivity

/-- A map costs nothing when it takes every source to its target. -/
theorem cost_eq_zero_iff (f : Map K) (l : List (Pair K)) : cost f l = 0 ↔ ∀ q ∈ l, f.apply q.1 = q.2 := by
  have hzero (q : Pair K) : distance f q = 0 ↔ f.apply q.1 = q.2 := by
    unfold distance
    rw [add_eq_zero_iff_of_nonneg (sq_nonneg _) (sq_nonneg _), sq_eq_zero_iff, sq_eq_zero_iff, sub_eq_zero, sub_eq_zero,
      Prod.ext_iff]
  unfold cost total
  induction l with
  | nil => exact iff_of_true rfl nofun
  | cons q l ih =>
    have hrest : 0 ≤ (l.map (distance f)).sum := total_nonneg (distance_nonneg f) l
    rw [List.map_cons, List.sum_cons, add_eq_zero_iff_of_nonneg (distance_nonneg f q) hrest, List.forall_mem_cons]
    exact and_congr (hzero q) ih

/-- The fitted map takes every source to its target when some map does. -/
theorem IsFit.apply_eq_iff (h : IsFit l m m' f) : (∀ q ∈ l, f.apply q.1 = q.2) ↔ ∃ g : Map K, ∀ q ∈ l, g.apply q.1 = q.2 := by
  constructor
  · exact fun hall => ⟨f, hall⟩
  · rintro ⟨g, hg⟩
    rw [← cost_eq_zero_iff] at hg ⊢
    have hle := h.cost_le g
    rw [hg] at hle
    exact le_antisymm hle (total_nonneg (distance_nonneg f) l)

end Ordered

end Perception.Lib.Similarity
