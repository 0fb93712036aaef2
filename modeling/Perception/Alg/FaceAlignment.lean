import Perception.Lib.Similarity

/-!
# The alignment of landmarks

`GetAffineParam` fits a similarity that takes one shape to another, and `AffineLandmark1` moves a
shape by a similarity or back. The numbers are exact. A shape has `LANDMARK` points, `x` and `y`
in turn. What `Mat::inv` gives is an input.
-/
namespace Perception.Alg.Alignment

set_option autoImplicit false

open Perception.Lib

abbrev Shape (LANDMARK : Nat) := { data : List ℚ // data.length = 2 * LANDMARK }

structure Mat22 where
  d0 : ℚ
  d1 : ℚ
  d2 : ℚ
  d3 : ℚ
  deriving DecidableEq

structure Mat12 where
  d0 : ℚ
  d1 : ℚ
  deriving DecidableEq

/-- The loop of `AffineLandmark1`. -/
def affine (a : Mat22) (b : Mat12) : List ℚ → List ℚ
  | x :: y :: pData1 => (x * a.d0 + y * a.d2 + b.d0) :: (x * a.d1 + y * a.d3 + b.d1) :: affine a b pData1
  | _ => []

theorem eq_cons_cons {l : List ℚ} {n : Nat} (h : l.length = 2 * (n + 1)) :
    ∃ x y rest, l = x :: y :: rest ∧ rest.length = 2 * n := by
  match l, h with
  | x :: y :: rest, h =>
    simp only [List.length_cons] at h
    exact ⟨x, y, rest, rfl, by omega⟩

theorem length_affine (a : Mat22) (b : Mat12) {n : Nat} {l : List ℚ} (h : l.length = 2 * n) :
    (affine a b l).length = 2 * n := by
  induction n generalizing l with
  | zero =>
    rw [List.eq_nil_of_length_eq_zero h]
    rfl
  | succ n ih =>
    obtain ⟨x, y, rest, rfl, hrest⟩ := eq_cons_cons h
    rw [affine, List.length_cons, List.length_cons, ih hrest]
    omega

variable {LANDMARK : Nat}

/-- `LandmarkOut` afterwards; none when there is no array. `inv` is `Mat::inv`. -/
def AffineLandmark1 (inv : Mat22 → Mat22) (Landmark : Option (Shape LANDMARK)) (R : Mat22) (C : Mat12)
    (LandmarkOut : Option (Shape LANDMARK)) (isInv : Bool) : Option (Shape LANDMARK) :=
  match Landmark, LandmarkOut with
  | some Landmark, some _ =>
    let A := if isInv = false then inv R else R
    let T :=
      if isInv = false then
        ⟨(C.d0 * A.d0 + C.d1 * A.d2) * (-1), (C.d0 * A.d1 + C.d1 * A.d3) * (-1)⟩
      else C
    some ⟨affine A T Landmark.1, length_affine A T Landmark.2⟩
  | _, _ => none

/-- The loops for the means. -/
def sumPoints : List ℚ → ℚ × ℚ → ℚ × ℚ
  | x :: y :: pData, mean => sumPoints pData (mean.1 + x, mean.2 + y)
  | _, mean => mean

def meanPoint (shape : Shape LANDMARK) : ℚ × ℚ :=
  let mean := sumPoints shape.1 (0, 0)
  (mean.1 / LANDMARK, mean.2 / LANDMARK)

def centre (mean : ℚ × ℚ) : List ℚ → List ℚ
  | x :: y :: pData => (x - mean.1) :: (y - mean.2) :: centre mean pData
  | _ => []

/-- `sum1` and `sum2`. -/
def sums : List ℚ → List ℚ → ℚ × ℚ → ℚ × ℚ
  | s :: pData, d :: pData1, sum => sums pData pData1 (sum.1 + s * d, sum.2 + s * s)
  | _, _, sum => sum

def sumCross : List ℚ → List ℚ → ℚ → ℚ
  | sx :: sy :: pData, dx :: dy :: pData1, b => sumCross pData pData1 (b + (sx * dy - sy * dx))
  | _, _, b => b

/-- `T` and `C`; none when there is no array. -/
def GetAffineParam (ShapesFrom ShapeTo : Option (Shape LANDMARK)) : Option (Mat22 × Mat12) :=
  match ShapesFrom, ShapeTo with
  | some ShapesFrom, some ShapeTo =>
    let dest_mean := meanPoint ShapeTo
    let src_mean := meanPoint ShapesFrom
    let srcVec := centre src_mean ShapesFrom.1
    let destVec := centre dest_mean ShapeTo.1
    let sum := sums srcVec destVec (0, 0)
    let a := sum.1 / sum.2
    let b := sumCross srcVec destVec 0 / sum.2
    let c1 := src_mean.1 * a - b * src_mean.2
    let c2 := b * src_mean.1 + a * src_mean.2
    some (⟨a, b, -b, a⟩, ⟨dest_mean.1 - c1, dest_mean.2 - c2⟩)
  | _, _ => none

/-- The matrix of a rotation with a scale. -/
def similar (a b : ℚ) : Mat22 := ⟨a, b, -b, a⟩

/-- The sum of the squares of the differences. -/
def squares (u v : List ℚ) : ℚ := (List.zipWith (fun s t => (s - t) ^ 2) u v).sum

/-- What the shape has around its mean. -/
def centredEnergy (shape : Shape LANDMARK) : ℚ := ((centre (meanPoint shape) shape.1).map (· ^ 2)).sum

def Mat22.mul (A B : Mat22) : Mat22 :=
  ⟨A.d0 * B.d0 + A.d1 * B.d2, A.d0 * B.d1 + A.d1 * B.d3, A.d2 * B.d0 + A.d3 * B.d2, A.d2 * B.d1 + A.d3 * B.d3⟩

def Mat22.det (A : Mat22) : ℚ := A.d0 * A.d3 - A.d1 * A.d2

def Mat22.one : Mat22 := ⟨1, 0, 0, 1⟩

/-- What `Mat::inv` is for: the inverse of a matrix that has one. -/
def IsInv (inv : Mat22 → Mat22) : Prop := ∀ R : Mat22, R.det ≠ 0 → R.mul (inv R) = Mat22.one ∧ (inv R).mul R = Mat22.one

/-- The two directions of `AffineLandmark1` undo each other, whatever is in the arrays. -/
def Inverse (inv : Mat22 → Mat22) (LANDMARK : Nat) (R : Mat22) (C : Mat12) : Prop :=
  ∀ (p out out' : Shape LANDMARK) (isInv : Bool),
    ((AffineLandmark1 inv (some p) R C (some out) isInv).bind fun q =>
      AffineLandmark1 inv (some q) R C (some out') !isInv) = some p

def points : List ℚ → List (ℚ × ℚ)
  | x :: y :: rest => (x, y) :: points rest
  | _ => []

/-- The pairs of a point and its target. -/
def pairs (src dst : List ℚ) : List (Similarity.Pair ℚ) := (points src).zip (points dst)

theorem pairs_cons (x y u v : ℚ) (src dst : List ℚ) :
    pairs (x :: y :: src) (u :: v :: dst) = ((x, y), (u, v)) :: pairs src dst := rfl

/-- Two shapes with the same number of points, point by point. -/
inductive Paired : List ℚ → List ℚ → Prop
  | nil : Paired [] []
  | cons (x y u v : ℚ) {src dst : List ℚ} (h : Paired src dst) : Paired (x :: y :: src) (u :: v :: dst)

theorem Paired.of_length {n : Nat} {src dst : List ℚ} (hsrc : src.length = 2 * n) (hdst : dst.length = 2 * n) :
    Paired src dst := by
  induction n generalizing src dst with
  | zero =>
    rw [List.eq_nil_of_length_eq_zero hsrc, List.eq_nil_of_length_eq_zero hdst]
    exact .nil
  | succ n ih =>
    obtain ⟨x, y, src, rfl, hsrc'⟩ := eq_cons_cons hsrc
    obtain ⟨u, v, dst, rfl, hdst'⟩ := eq_cons_cons hdst
    exact .cons x y u v (ih hsrc' hdst')

theorem paired (src dst : Shape LANDMARK) : Paired src.1 dst.1 := .of_length src.2 dst.2

theorem length_pairs (src dst : Shape LANDMARK) : (pairs src.1 dst.1).length = LANDMARK := by
  have hpaired {src dst : List ℚ} (h : Paired src dst) : src.length = 2 * (pairs src dst).length := by
    induction h with
    | nil => rfl
    | cons x y u v h ih =>
      rw [List.length_cons, List.length_cons, pairs_cons, List.length_cons]
      omega
  have hlen := hpaired (paired src dst)
  rw [src.2] at hlen
  omega

section Paired

variable {src dst : List ℚ} (h : Paired src dst)

include h

theorem sumPoints_src (mean : ℚ × ℚ) :
    sumPoints src mean = (mean.1 + Similarity.total (fun q => q.1.1) (pairs src dst),
      mean.2 + Similarity.total (fun q => q.1.2) (pairs src dst)) := by
  induction h generalizing mean with
  | nil => simp [sumPoints, pairs, points, Similarity.total]
  | cons x y u v h ih =>
    rw [sumPoints, ih]
    simp only [pairs_cons, Similarity.total, List.map_cons, List.sum_cons, add_assoc]

theorem sumPoints_dst (mean : ℚ × ℚ) :
    sumPoints dst mean = (mean.1 + Similarity.total (fun q => q.2.1) (pairs src dst),
      mean.2 + Similarity.total (fun q => q.2.2) (pairs src dst)) := by
  induction h generalizing mean with
  | nil => simp [sumPoints, pairs, points, Similarity.total]
  | cons x y u v h ih =>
    rw [sumPoints, ih]
    simp only [pairs_cons, Similarity.total, List.map_cons, List.sum_cons, add_assoc]

theorem sums_centre (m m' sum : ℚ × ℚ) : sums (centre m src) (centre m' dst) sum =
    (sum.1 + Similarity.dot m m' (pairs src dst), sum.2 + Similarity.energy m (pairs src dst)) := by
  induction h generalizing sum with
  | nil => simp [sums, centre, pairs, points, Similarity.dot, Similarity.energy, Similarity.total]
  | cons x y u v h ih =>
    rw [centre, centre, sums, sums, ih]
    simp only [pairs_cons, Similarity.dot, Similarity.energy, Similarity.total, List.map_cons,
      List.sum_cons, Prod.mk.injEq]
    constructor <;> ring

theorem sumCross_centre (m m' : ℚ × ℚ) (b : ℚ) :
    sumCross (centre m src) (centre m' dst) b = b + Similarity.cross m m' (pairs src dst) := by
  induction h generalizing b with
  | nil => simp [sumCross, centre, pairs, points, Similarity.cross, Similarity.total]
  | cons x y u v h ih =>
    rw [centre, centre, sumCross, ih]
    simp only [pairs_cons, Similarity.cross, Similarity.total, List.map_cons, List.sum_cons]
    ring

theorem sum_centre (m : ℚ × ℚ) : ((centre m src).map (· ^ 2)).sum = Similarity.energy m (pairs src dst) := by
  induction h with
  | nil => rfl
  | cons x y u v h ih =>
    simp only [centre, pairs_cons, Similarity.energy, Similarity.total, List.map_cons,
      List.sum_cons] at ih ⊢
    rw [ih]
    ring

theorem squares_affine (f : Similarity.Map ℚ) :
    squares (affine (similar f.a f.b) ⟨f.c₁, f.c₂⟩ src) dst = Similarity.cost f (pairs src dst) := by
  induction h with
  | nil => rfl
  | cons x y u v h ih =>
    simp only [squares, affine, similar, pairs_cons, Similarity.cost, Similarity.total, Similarity.distance,
      Similarity.Map.apply, List.zipWith_cons_cons, List.map_cons, List.sum_cons] at ih ⊢
    rw [ih]
    ring

theorem affine_eq_iff (f : Similarity.Map ℚ) :
    affine (similar f.a f.b) ⟨f.c₁, f.c₂⟩ src = dst ↔ ∀ q ∈ pairs src dst, f.apply q.1 = q.2 := by
  induction h with
  | nil => exact iff_of_true rfl nofun
  | cons x y u v h ih =>
    rw [affine, pairs_cons, List.forall_mem_cons, ← ih]
    simp only [similar, Similarity.Map.apply, List.cons.injEq, Prod.mk.injEq, and_assoc, mul_neg, ← sub_eq_add_neg]

end Paired

theorem LANDMARK_ne_zero {src : Shape LANDMARK} (henergy : centredEnergy src ≠ 0) : (LANDMARK : ℚ) ≠ 0 := by
  intro hzero
  obtain rfl : LANDMARK = 0 := Nat.cast_eq_zero.mp hzero
  apply henergy
  rw [centredEnergy, List.eq_nil_of_length_eq_zero src.2]
  rfl

/-- The map of `T` and `C`. -/
def fitted (src dst : Shape LANDMARK) : Similarity.Map ℚ :=
  let m := meanPoint src
  let m' := meanPoint dst
  let a := Similarity.dot m m' (pairs src.1 dst.1) / Similarity.energy m (pairs src.1 dst.1)
  let b := Similarity.cross m m' (pairs src.1 dst.1) / Similarity.energy m (pairs src.1 dst.1)
  ⟨a, b, m'.1 - (m.1 * a - b * m.2), m'.2 - (b * m.1 + a * m.2)⟩

theorem GetAffineParam_eq (src dst : Shape LANDMARK) :
    GetAffineParam (some src) (some dst) =
      some (similar (fitted src dst).a (fitted src dst).b, ⟨(fitted src dst).c₁, (fitted src dst).c₂⟩) := by
  have hpaired := paired src dst
  unfold GetAffineParam
  simp only [sums_centre hpaired, sumCross_centre hpaired, zero_add]
  rfl

theorem isFit_fitted {src : Shape LANDMARK} (dst : Shape LANDMARK) (henergy : centredEnergy src ≠ 0) :
    Similarity.IsFit (pairs src.1 dst.1) (meanPoint src) (meanPoint dst) (fitted src dst) := by
  have hne := LANDMARK_ne_zero henergy
  have hpaired := paired src dst
  rw [centredEnergy, sum_centre hpaired] at henergy
  have hmean : meanPoint src = (Similarity.total (fun q => q.1.1) (pairs src.1 dst.1) / LANDMARK,
      Similarity.total (fun q => q.1.2) (pairs src.1 dst.1) / LANDMARK) := by
    simp only [meanPoint, sumPoints_src hpaired, zero_add]
  have hmean' : meanPoint dst = (Similarity.total (fun q => q.2.1) (pairs src.1 dst.1) / LANDMARK,
      Similarity.total (fun q => q.2.2) (pairs src.1 dst.1) / LANDMARK) := by
    simp only [meanPoint, sumPoints_dst hpaired, zero_add]
  constructor
  · rw [length_pairs, hmean]
    exact mul_div_cancel₀ _ hne
  · rw [length_pairs, hmean]
    exact mul_div_cancel₀ _ hne
  · rw [length_pairs, hmean']
    exact mul_div_cancel₀ _ hne
  · rw [length_pairs, hmean']
    exact mul_div_cancel₀ _ hne
  · exact div_mul_cancel₀ _ henergy
  · exact div_mul_cancel₀ _ henergy
  · rw [mul_comm (meanPoint src).2]
    rfl
  · rw [mul_comm (meanPoint src).1, mul_comm (meanPoint src).2]
    rfl

theorem affine_affine {A B : Mat22} {b c : Mat12} (hone : A.mul B = Mat22.one)
    (h0 : b.d0 * B.d0 + b.d1 * B.d2 + c.d0 = 0) (h1 : b.d0 * B.d1 + b.d1 * B.d3 + c.d1 = 0) {src dst : List ℚ}
    (h : Paired src dst) : affine B c (affine A b src) = src := by
  simp only [Mat22.mul, Mat22.one, Mat22.mk.injEq] at hone
  obtain ⟨h00, h01, h10, h11⟩ := hone
  induction h with
  | nil => rfl
  | cons x y u v h ih =>
    rw [affine, affine, ih, List.cons.injEq, List.cons.injEq]
    refine ⟨?_, ?_, rfl⟩
    · linear_combination x * h00 + y * h10 + h0
    · linear_combination x * h01 + y * h11 + h1

theorem inverse_of_det {inv : Mat22 → Mat22} (hinv : IsInv inv) {R : Mat22} (hdet : R.det ≠ 0) (C : Mat12) :
    Inverse inv LANDMARK R C := by
  intro p out out' isInv
  obtain ⟨hright, hleft⟩ := hinv R hdet
  have hpaired := paired p p
  cases isInv with
  | true =>
    refine congrArg some (Subtype.ext (affine_affine hright ?_ ?_ hpaired))
    · change C.d0 * (inv R).d0 + C.d1 * (inv R).d2 + (C.d0 * (inv R).d0 + C.d1 * (inv R).d2) * (-1) = 0
      ring
    · change C.d0 * (inv R).d1 + C.d1 * (inv R).d3 + (C.d0 * (inv R).d1 + C.d1 * (inv R).d3) * (-1) = 0
      ring
  | false =>
    have hone := hleft
    simp only [Mat22.mul, Mat22.one, Mat22.mk.injEq] at hone
    obtain ⟨h00, h01, h10, h11⟩ := hone
    refine congrArg some (Subtype.ext (affine_affine hleft ?_ ?_ hpaired))
    · change (C.d0 * (inv R).d0 + C.d1 * (inv R).d2) * (-1) * R.d0 +
        (C.d0 * (inv R).d1 + C.d1 * (inv R).d3) * (-1) * R.d2 + C.d0 = 0
      linear_combination -C.d0 * h00 - C.d1 * h10
    · change (C.d0 * (inv R).d0 + C.d1 * (inv R).d2) * (-1) * R.d1 +
        (C.d0 * (inv R).d1 + C.d1 * (inv R).d3) * (-1) * R.d3 + C.d1 = 0
      linear_combination -C.d0 * h01 - C.d1 * h11

theorem det_similar_ne_zero {a b : ℚ} (h : (a, b) ≠ (0, 0)) : (similar a b).det ≠ 0 := by
  have hdet : (similar a b).det = a ^ 2 + b ^ 2 := by
    simp only [similar, Mat22.det]
    ring
  intro hzero
  rw [hdet, add_eq_zero_iff_of_nonneg (sq_nonneg a) (sq_nonneg b), sq_eq_zero_iff, sq_eq_zero_iff] at hzero
  exact h (Prod.ext hzero.1 hzero.2)

/-- **Alignment.** The similarity that is computed has the least sum of squares of all, takes the
first shape to the second when one does, and is undone by `AffineLandmark1`, which undoes
it as well, unless it is a point. -/
theorem GetAffineParam_best (inv : Mat22 → Mat22) (hinv : IsInv inv) (src dst : Shape LANDMARK)
    (henergy : centredEnergy src ≠ 0) :
    ∃ (a b : ℚ) (C : Mat12), GetAffineParam (some src) (some dst) = some (similar a b, C) ∧
      (∀ (a' b' : ℚ) (C' : Mat12),
        squares (affine (similar a b) C src.1) dst.1 ≤ squares (affine (similar a' b') C' src.1) dst.1) ∧
      (affine (similar a b) C src.1 = dst.1 ↔ ∃ (a' b' : ℚ) (C' : Mat12), affine (similar a' b') C' src.1 = dst.1) ∧
      ((a, b) ≠ (0, 0) → Inverse inv LANDMARK (similar a b) C) := by
  have hpaired := paired src dst
  have hfit := isFit_fitted dst henergy
  refine ⟨_, _, _, GetAffineParam_eq src dst, fun a' b' C' => ?_, ?_, fun hne => ?_⟩
  · have hle := hfit.cost_le ⟨a', b', C'.d0, C'.d1⟩
    rw [← squares_affine hpaired, ← squares_affine hpaired] at hle
    exact hle
  · rw [affine_eq_iff hpaired, hfit.apply_eq_iff]
    constructor
    · rintro ⟨g, hg⟩
      exact ⟨g.a, g.b, ⟨g.c₁, g.c₂⟩, (affine_eq_iff hpaired g).mpr hg⟩
    · rintro ⟨a', b', C', heq⟩
      exact ⟨⟨a', b', C'.d0, C'.d1⟩, (affine_eq_iff hpaired ⟨a', b', C'.d0, C'.d1⟩).mp heq⟩
  · exact inverse_of_det hinv (det_similar_ne_zero hne) _

/-- The inverse of a matrix that has one, and zeros else. -/
def invOf (R : Mat22) : Mat22 := ⟨R.d3 / R.det, -R.d1 / R.det, -R.d2 / R.det, R.d0 / R.det⟩

theorem isInv_invOf : IsInv invOf := by
  intro R hdet
  have hone {u : ℚ} (hu : u = R.d0 * R.d3 - R.d1 * R.d2) : u / R.det = 1 := by
    rw [hu]
    exact div_self hdet
  have hzero {u : ℚ} (hu : u = 0) : u / R.det = 0 := by rw [hu, zero_div]
  simp only [Mat22.mul, Mat22.one, invOf, Mat22.mk.injEq, mul_div_assoc', div_mul_eq_mul_div, ← add_div]
  exact ⟨⟨hone (by ring), hzero (by ring), hzero (by ring), hone (by ring)⟩,
    hone (by ring), hzero (by ring), hzero (by ring), hone (by ring)⟩

def triangle : Shape 3 := ⟨[0, 0, 1, 0, 0, 1], rfl⟩

/-- No similarity takes the triangle to it. -/
def skewTriangle : Shape 3 := ⟨[2, 3, 5, 3, 1, 7], rfl⟩

theorem GetAffineParam_best_triangle : IsInv invOf ∧ centredEnergy triangle ≠ 0 ∧
    ∃ (a b : ℚ) (C : Mat12), GetAffineParam (some triangle) (some skewTriangle) = some (similar a b, C) ∧
      (∀ (a' b' : ℚ) (C' : Mat12), squares (affine (similar a b) C triangle.1) skewTriangle.1 ≤
        squares (affine (similar a' b') C' triangle.1) skewTriangle.1) ∧
      (affine (similar a b) C triangle.1 = skewTriangle.1 ↔
        ∃ (a' b' : ℚ) (C' : Mat12), affine (similar a' b') C' triangle.1 = skewTriangle.1) ∧
      ((a, b) ≠ (0, 0) → Inverse invOf 3 (similar a b) C) := by
  have henergy : centredEnergy triangle ≠ 0 := by decide +kernel
  exact ⟨isInv_invOf, henergy, GetAffineParam_best invOf isInv_invOf triangle skewTriangle henergy⟩

end Perception.Alg.Alignment
