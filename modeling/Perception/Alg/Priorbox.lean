import Mathlib.Algebra.BigOperators.Ring.List
import Mathlib.Algebra.Group.Action.Defs
import Mathlib.Data.List.Flatten
import Mathlib.Tactic.FieldSimp
import Mathlib.Tactic.Linarith
import Perception.Alg.FaceMapping
import Perception.Alg.FaceNms

/-!
# The prior boxes of the face network

`GenPriorbox` over exact numbers: the boxes around the cells of a feature map, those of the two
smallest sizes in a grid that is denser than the cells.
-/
namespace Perception.Alg.Face

set_option autoImplicit false

open Perception.Lib

/-- What `GenPriorbox` allocates and fills, a box for four floats. -/
structure Priors where
  prior_data : List BBox
  variances_data : List BBox
  p_bboxs_dim : Nat

/-- The two loops over `i` and `j` for a size that has several boxes around a cell. -/
def denseBoxes (image_w image_h : Nat) (offsets : List ℤ) (shift : ℚ) (c_x c_y box_w : ℚ) : List BBox :=
  offsets.flatMap fun i => offsets.map fun j =>
    ⟨(c_x + j * shift - (box_w - 1) / 2) / image_w, (c_y + i * shift - (box_w - 1) / 2) / image_h,
     (c_x + j * shift - (box_w - 1) / 2) / image_w, (c_y + i * shift - (box_w - 1) / 2) / image_h⟩

/-- The boxes of one size around one cell. -/
def cellBoxes (image_w image_h : Nat) (c_x c_y : ℚ) (min_size : Nat) : List BBox :=
  let box_w : ℚ := min_size
  let box_h : ℚ := min_size
  if 32 = min_size then denseBoxes image_w image_h [-2, -1, 0, 1] 8 c_x c_y box_w
  else if 64 = min_size then denseBoxes image_w image_h [-1, 0] 16 c_x c_y box_w
  else
    [⟨(c_x - box_w / 2) / image_w, (c_y - box_h / 2) / image_h, (c_x + box_w / 2) / image_w, (c_y + box_h / 2) / image_h⟩]

/-- The floats that one size takes. -/
def sizeDim (feamap_w feamap_h min_size : Nat) : Nat :=
  if 32 = min_size then feamap_h * feamap_w * 4 * 4 * 4
  else if 64 = min_size then feamap_h * feamap_w * 2 * 2 * 4
  else feamap_h * feamap_w * 1 * 4

def GenPriorbox (image_w image_h feamap_w feamap_h : Nat) (min_sizes : List Nat) (step : ℚ) : Priors :=
  let offset : ℚ := 1 / 2
  let prior_data := (List.range feamap_h).flatMap fun h : Nat => (List.range feamap_w).flatMap fun w : Nat =>
    min_sizes.flatMap (cellBoxes image_w image_h ((w + offset) * step) ((h + offset) * step))
  { prior_data := prior_data
    variances_data := prior_data.map fun _ => ⟨1 / 10, 1 / 10, 2 / 10, 2 / 10⟩
    p_bboxs_dim := (min_sizes.map (sizeDim feamap_w feamap_h)).sum }

/-- The sizes of the maps are not negative. -/
def GetFeatureMapSize2Cov (input : Size) (kernel_s stride_s padding_s : Nat) : Size :=
  let output (input : Nat) := (truncate (((input : ℚ) - kernel_s + 2 * padding_s) / stride_s + 1)).toNat
  ⟨output input.cols, output input.rows⟩

def GetFeatureMapSize2Pol (input : Size) (kernel_s stride_s padding_s : Nat) : Size :=
  let output (input : Nat) := (⌈((input : ℚ) - kernel_s + 2 * padding_s) / stride_s⌉ + 1).toNat
  ⟨output input.cols, output input.rows⟩

/-- The three levels of the pyramid. -/
def pyramid (image_w image_h : Nat) : List Priors :=
  let output := GetFeatureMapSize2Cov ⟨image_w, image_h⟩ 7 4 3
  let output := GetFeatureMapSize2Pol output 3 2 0
  let output := GetFeatureMapSize2Cov output 5 2 2
  let output1 := GetFeatureMapSize2Pol output 3 2 0
  let output2 := GetFeatureMapSize2Cov output1 3 2 1
  let output3 := GetFeatureMapSize2Cov output2 3 2 1
  [GenPriorbox image_w image_h output1.cols output1.rows [32, 64, 128] 32,
   GenPriorbox image_w image_h output2.cols output2.rows [256] 64,
   GenPriorbox image_w image_h output3.cols output3.rows [512] 128]

/-- None if they are not as many boxes as the network has. -/
def GenAllPriorboxs (mbox_num image_w image_h : Nat) : Option (List BBox) :=
  let priors := pyramid image_w image_h
  if (priors.map Priors.p_bboxs_dim).sum ≠ mbox_num * 4 then none else some (priors.flatMap Priors.prior_data)

/-- Where a prior is to be, and its size, in pixels. -/
structure Anchor where
  min_size : Nat
  c_x : ℚ
  c_y : ℚ

def denseAnchors (offsets : List ℤ) (shift : ℚ) (c_x c_y : ℚ) (min_size : Nat) : List Anchor :=
  offsets.flatMap fun i => offsets.map fun j => ⟨min_size, c_x + j * shift, c_y + i * shift⟩

/-- The centres that one size has around one cell. -/
def cellAnchors (c_x c_y : ℚ) (min_size : Nat) : List Anchor :=
  if 32 = min_size then denseAnchors [-2, -1, 0, 1] 8 c_x c_y min_size
  else if 64 = min_size then denseAnchors [-1, 0] 16 c_x c_y min_size
  else [⟨min_size, c_x, c_y⟩]

def anchors (feamap_w feamap_h : Nat) (min_sizes : List Nat) (step : ℚ) : List Anchor :=
  (List.range feamap_h).flatMap fun h : Nat => (List.range feamap_w).flatMap fun w : Nat =>
    min_sizes.flatMap (cellAnchors ((w + 1 / 2) * step) ((h + 1 / 2) * step))

/-- A box around its anchor, in parts of the image, as large as the anchor up to a pixel. -/
structure ProperPrior (image_w image_h : Nat) (a : Anchor) (b : BBox) : Prop where
  x_lt : b.xmin < b.xmax
  y_lt : b.ymin < b.ymax
  width : |(b.xmax - b.xmin) - (a.min_size : ℚ) / image_w| ≤ 1 / image_w
  height : |(b.ymax - b.ymin) - (a.min_size : ℚ) / image_h| ≤ 1 / image_h
  centre_x : (b.xmin + b.xmax) / 2 = a.c_x / image_w
  centre_y : (b.ymin + b.ymax) / 2 = a.c_y / image_h

/-- The allocated floats are filled, with a proper box for each anchor. -/
structure ProperPriors (image_w image_h feamap_w feamap_h : Nat) (min_sizes : List Nat) (step : ℚ) (p : Priors) :
    Prop where
  prior_data_length : p.prior_data.length * 4 = p.p_bboxs_dim
  variance_data_length : p.variances_data.length * 4 = p.p_bboxs_dim
  proper : List.Forall₂ (ProperPrior image_w image_h) (anchors feamap_w feamap_h min_sizes step) p.prior_data

/-- The box that the code makes for an anchor. -/
def priorOf (image_w image_h : Nat) (a : Anchor) : BBox :=
  let m : ℚ := a.min_size
  if a.min_size = 32 ∨ a.min_size = 64 then
    ⟨(a.c_x - (m - 1) / 2) / image_w, (a.c_y - (m - 1) / 2) / image_h,
     (a.c_x - (m - 1) / 2) / image_w, (a.c_y - (m - 1) / 2) / image_h⟩
  else ⟨(a.c_x - m / 2) / image_w, (a.c_y - m / 2) / image_h, (a.c_x + m / 2) / image_w, (a.c_y + m / 2) / image_h⟩

theorem denseBoxes_eq (image_w image_h : Nat) (offsets : List ℤ) (shift c_x c_y : ℚ) {m : Nat} (hm : m = 32 ∨ m = 64) :
    denseBoxes image_w image_h offsets shift c_x c_y m =
      (denseAnchors offsets shift c_x c_y m).map (priorOf image_w image_h) := by
  unfold denseBoxes denseAnchors
  rw [List.map_flatMap]
  simp only [List.map_map, Function.comp_def, priorOf, if_pos hm]

theorem cellBoxes_eq (image_w image_h : Nat) (c_x c_y : ℚ) (m : Nat) :
    cellBoxes image_w image_h c_x c_y m = (cellAnchors c_x c_y m).map (priorOf image_w image_h) := by
  unfold cellBoxes cellAnchors
  split
  · rename_i h32
    exact denseBoxes_eq image_w image_h _ 8 c_x c_y (.inl h32.symm)
  · rename_i h32
    split
    · rename_i h64
      exact denseBoxes_eq image_w image_h _ 16 c_x c_y (.inr h64.symm)
    · rename_i h64
      have hm : ¬(m = 32 ∨ m = 64) := by omega
      rw [List.map_singleton, priorOf, if_neg hm]

theorem prior_data_eq (image_w image_h feamap_w feamap_h : Nat) (min_sizes : List Nat) (step : ℚ) :
    (GenPriorbox image_w image_h feamap_w feamap_h min_sizes step).prior_data =
      (anchors feamap_w feamap_h min_sizes step).map (priorOf image_w image_h) := by
  have hcell : ∀ c_x c_y : ℚ, cellBoxes image_w image_h c_x c_y =
      fun m => (cellAnchors c_x c_y m).map (priorOf image_w image_h) := fun c_x c_y =>
    funext (cellBoxes_eq image_w image_h c_x c_y)
  unfold GenPriorbox anchors
  simp only [List.map_flatMap, hcell]

def perCell (m : Nat) : Nat := if 32 = m then 16 else if 64 = m then 4 else 1

theorem length_cellAnchors (c_x c_y : ℚ) (m : Nat) : (cellAnchors c_x c_y m).length = perCell m := by
  unfold cellAnchors perCell
  split
  · rfl
  · split
    · rfl
    · rfl

theorem sizeDim_eq (feamap_w feamap_h m : Nat) : sizeDim feamap_w feamap_h m = feamap_h * feamap_w * (perCell m * 4) := by
  unfold sizeDim perCell
  split
  · rw [Nat.mul_assoc, Nat.mul_assoc]
  · split
    · rw [Nat.mul_assoc, Nat.mul_assoc]
    · rw [Nat.mul_one, Nat.one_mul]

theorem length_anchors (feamap_w feamap_h : Nat) (min_sizes : List Nat) (step : ℚ) :
    (anchors feamap_w feamap_h min_sizes step).length = feamap_h * (feamap_w * (min_sizes.map perCell).sum) := by
  unfold anchors
  simp only [List.length_flatMap, length_cellAnchors, List.map_const', List.length_range, List.sum_replicate, smul_eq_mul]

theorem p_bboxs_dim_eq (feamap_w feamap_h : Nat) (min_sizes : List Nat) :
    (min_sizes.map (sizeDim feamap_w feamap_h)).sum = feamap_h * (feamap_w * (min_sizes.map perCell).sum) * 4 := by
  have hdim : sizeDim feamap_w feamap_h = fun m => feamap_h * feamap_w * (perCell m * 4) :=
    funext (sizeDim_eq feamap_w feamap_h)
  rw [hdim, List.sum_map_mul_left, List.sum_map_mul_right, Nat.mul_assoc feamap_h feamap_w, Nat.mul_assoc feamap_h,
    Nat.mul_assoc feamap_w]

/-- What is allocated is filled, whatever the boxes are. -/
theorem prior_data_length (image_w image_h feamap_w feamap_h : Nat) (min_sizes : List Nat) (step : ℚ) :
    (GenPriorbox image_w image_h feamap_w feamap_h min_sizes step).prior_data.length * 4 =
      (GenPriorbox image_w image_h feamap_w feamap_h min_sizes step).p_bboxs_dim := by
  rw [prior_data_eq, List.length_map, length_anchors]
  exact (p_bboxs_dim_eq feamap_w feamap_h min_sizes).symm

/-- A size that has several boxes around a cell gets boxes without a width. -/
theorem properPrior_iff {image_w image_h : Nat} (hw : 0 < image_w) (hh : 0 < image_h) (a : Anchor) (ha : 0 < a.min_size) :
    ProperPrior image_w image_h a (priorOf image_w image_h a) ↔ a.min_size ≠ 32 ∧ a.min_size ≠ 64 := by
  rw [← not_or]
  constructor
  · intro h hdense
    have hx := h.x_lt
    rw [priorOf, if_pos hdense] at hx
    exact lt_irrefl _ hx
  · intro hsingle
    have hm : (0 : ℚ) < a.min_size := by exact_mod_cast ha
    have hwq : (0 : ℚ) < image_w := by exact_mod_cast hw
    have hhq : (0 : ℚ) < image_h := by exact_mod_cast hh
    unfold priorOf
    rw [if_neg hsingle]
    constructor
    · exact div_lt_div_of_pos_right (by linarith) hwq
    · exact div_lt_div_of_pos_right (by linarith) hhq
    · have hwidth : (a.c_x + (a.min_size : ℚ) / 2) / image_w - (a.c_x - (a.min_size : ℚ) / 2) / image_w -
          (a.min_size : ℚ) / image_w = 0 := by ring
      rw [hwidth, abs_zero]
      positivity
    · have hheight : (a.c_y + (a.min_size : ℚ) / 2) / image_h - (a.c_y - (a.min_size : ℚ) / 2) / image_h -
          (a.min_size : ℚ) / image_h = 0 := by ring
      rw [hheight, abs_zero]
      positivity
    · ring
    · ring

theorem mem_denseAnchors {offsets : List ℤ} {shift c_x c_y : ℚ} {m : Nat} {a : Anchor}
    (ha : a ∈ denseAnchors offsets shift c_x c_y m) : a.min_size = m := by
  obtain ⟨i, -, ha⟩ := List.mem_flatMap.mp ha
  obtain ⟨j, -, rfl⟩ := List.mem_map.mp ha
  rfl

theorem mem_cellAnchors {c_x c_y : ℚ} {m : Nat} {a : Anchor} (ha : a ∈ cellAnchors c_x c_y m) : a.min_size = m := by
  unfold cellAnchors at ha
  split at ha
  · exact mem_denseAnchors ha
  · split at ha
    · exact mem_denseAnchors ha
    · rw [List.mem_singleton.mp ha]

theorem exists_cellAnchor (c_x c_y : ℚ) (m : Nat) : ∃ a ∈ cellAnchors c_x c_y m, a.min_size = m := by
  have hpos : 0 < (cellAnchors c_x c_y m).length := by
    rw [length_cellAnchors, perCell]
    split_ifs <;> decide
  obtain ⟨a, ha⟩ := List.exists_mem_of_length_pos hpos
  exact ⟨a, ha, mem_cellAnchors ha⟩

/-- There are anchors of every size, unless the map has no cells. -/
theorem forall_anchors_iff (P : Nat → Prop) (feamap_w feamap_h : Nat) (min_sizes : List Nat) (step : ℚ) :
    (∀ a ∈ anchors feamap_w feamap_h min_sizes step, P a.min_size) ↔
      feamap_w = 0 ∨ feamap_h = 0 ∨ ∀ m ∈ min_sizes, P m := by
  simp only [anchors, List.mem_flatMap, List.mem_range]
  constructor
  · intro h
    by_contra hcon
    obtain ⟨hw, hcon⟩ := not_or.mp hcon
    obtain ⟨hh, hcon⟩ := not_or.mp hcon
    apply hcon
    intro m hm
    obtain ⟨a, ha, hmin⟩ := exists_cellAnchor (((0 : Nat) + 1 / 2) * step) (((0 : Nat) + 1 / 2) * step) m
    rw [← hmin]
    exact h a ⟨0, Nat.pos_of_ne_zero hh, 0, Nat.pos_of_ne_zero hw, m, hm, ha⟩
  · intro h a ha
    obtain ⟨i, hi, j, hj, m, hm, ha⟩ := ha
    rw [mem_cellAnchors ha]
    rcases h with rfl | rfl | hall
    · exact absurd hj (Nat.not_lt_zero j)
    · exact absurd hi (Nat.not_lt_zero i)
    · exact hall m hm

/-- The priors are proper unless there are some of size 32 or 64. -/
theorem GenPriorbox_proper_iff (image_w image_h feamap_w feamap_h : Nat) (min_sizes : List Nat) (step : ℚ)
    (hw : 0 < image_w) (hh : 0 < image_h) (hsizes : ∀ m ∈ min_sizes, 0 < m) :
    ProperPriors image_w image_h feamap_w feamap_h min_sizes step
        (GenPriorbox image_w image_h feamap_w feamap_h min_sizes step) ↔
      feamap_w = 0 ∨ feamap_h = 0 ∨ ∀ m ∈ min_sizes, m ≠ 32 ∧ m ≠ 64 := by
  have hlength := prior_data_length image_w image_h feamap_w feamap_h min_sizes step
  have hpos : ∀ a ∈ anchors feamap_w feamap_h min_sizes step, 0 < a.min_size :=
    (forall_anchors_iff (0 < ·) feamap_w feamap_h min_sizes step).mpr (.inr (.inr hsizes))
  have hproper : List.Forall₂ (ProperPrior image_w image_h) (anchors feamap_w feamap_h min_sizes step)
      (GenPriorbox image_w image_h feamap_w feamap_h min_sizes step).prior_data ↔
        ∀ a ∈ anchors feamap_w feamap_h min_sizes step, a.min_size ≠ 32 ∧ a.min_size ≠ 64 := by
    rw [prior_data_eq, List.forall₂_map_right_iff, List.forall₂_same]
    exact forall₂_congr fun a ha => properPrior_iff hw hh a (hpos a ha)
  rw [← forall_anchors_iff (fun m => m ≠ 32 ∧ m ≠ 64) feamap_w feamap_h min_sizes step, ← hproper]
  refine ⟨ProperPriors.proper, fun h => ⟨hlength, ?_, h⟩⟩
  rw [← hlength]
  simp only [GenPriorbox, List.length_map]

/-- The second level of the pyramid. -/
theorem GenPriorbox_proper_256 :
    ProperPriors 800 464 13 7 [256] 64 (GenPriorbox 800 464 13 7 [256] 64) :=
  (GenPriorbox_proper_iff 800 464 13 7 [256] 64 (by decide) (by decide) (by decide)).mpr (.inr (.inr (by decide)))

/-- The first one: its first box has no width. -/
theorem not_GenPriorbox_proper_32 :
    ¬ProperPriors 800 464 25 14 [32, 64, 128] 32 (GenPriorbox 800 464 25 14 [32, 64, 128] 32) := by
  intro h
  have hpriors := h.proper
  rw [prior_data_eq, List.forall₂_map_right_iff, List.forall₂_same] at hpriors
  have hsingle : ∀ a ∈ anchors 25 14 [32, 64, 128] 32, a.min_size ≠ 32 := by
    intro a ha h32
    have hx := (hpriors a ha).x_lt
    rw [priorOf, if_pos (.inl h32)] at hx
    exact lt_irrefl _ hx
  have hall := (forall_anchors_iff (· ≠ 32) 25 14 [32, 64, 128] 32).mp hsingle
  exact absurd hall (by decide)

end Perception.Alg.Face
