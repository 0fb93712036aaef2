import Mathlib.Tactic.FieldSimp
import Perception.Alg.Nms
import Perception.Lib.Traced
import Perception.Lib.Truncate

/-!
# Slices of a frame

`ImgToSlices` pads a frame to a square and cuts squares of the width of the network out of
it, in steps whose length is cut to an integer each time it is added. The numbers are exact,
apart from the truncations of the code.
-/
namespace Perception.Img

set_option autoImplicit false

open Perception.Lib Traced
open Perception.Alg.Detect (box)

variable {Pixel : Type}

structure Mat (Pixel : Type) where
  rows : Nat
  cols : Nat
  pixel : Nat → Nat → Pixel

structure Rect where
  x : ℤ
  y : ℤ
  width : ℤ
  height : ℤ
  deriving DecidableEq

structure Point where
  x : ℤ
  y : ℤ
  deriving DecidableEq

/-- The rectangle lies in the matrix. -/
def Mat.Holds (m : Mat Pixel) (roi : Rect) : Prop :=
  0 ≤ roi.x ∧ 0 ≤ roi.width ∧ roi.x + roi.width ≤ m.cols ∧
    0 ≤ roi.y ∧ 0 ≤ roi.height ∧ roi.y + roi.height ≤ m.rows

instance (m : Mat Pixel) (roi : Rect) : Decidable (m.Holds roi) := inferInstanceAs (Decidable (_ ∧ _))

/-- `m(roi)`, which throws unless the rectangle lies in the matrix. -/
def Mat.part (m : Mat Pixel) (roi : Rect) : Option (Mat Pixel) :=
  if m.Holds roi then
    some ⟨roi.height.toNat, roi.width.toNat, fun i j => m.pixel (roi.y.toNat + i) (roi.x.toNat + j)⟩
  else none

def Rect.Covers (roi : Rect) (x y : ℤ) : Prop :=
  roi.x ≤ x ∧ x < roi.x + roi.width ∧ roi.y ≤ y ∧ y < roi.y + roi.height

/-- What `ImgToSlices` does: it asks for a part of the square image, and puts an image or a
point behind the others. -/
inductive Event (Pixel : Type)
  | roi (roi : Rect)
  | result (m : Mat Pixel)
  | transPts (pt : Point)

/-- The frame in the middle of a square of its width. -/
def squareImg [Zero Pixel] (src : Mat Pixel) : Mat Pixel where
  rows := src.cols
  cols := src.cols
  pixel i j :=
    let dh : ℤ := ((src.cols : ℤ) - src.rows).tdiv 2
    if i < dh ∨ i ≥ dh + src.rows then 0 else src.pixel (i - dh).toNat j

def slice (square : Mat Pixel) (inWidth : Nat) (x y : ℤ) : Traced (Event Pixel) Unit := do
  let roi : Rect := ⟨x, y, inWidth, inWidth⟩
  emit (.roi roi)
  match square.part roi with
  | none => halt
  | some subImg => do
    emit (.result subImg)
    emit (.transPts ⟨x, y⟩)

/-- The two loops, over the values of `x` and of `y`. -/
def slices (square : Mat Pixel) (inWidth : Nat) (xs ys : List ℤ) : Traced (Event Pixel) Unit :=
  xs.forM fun x => ys.forM fun y => slice square inWidth x y

def ImgToSlices [Zero Pixel] (resize : Mat Pixel → Nat → Nat → Mat Pixel) (src : Mat Pixel) (inWidth : Nat) :
    Traced (Event Pixel) Unit := do
  let resizeImg := resize (squareImg src) inWidth inWidth
  emit (.result resizeImg)
  let k : ℚ := src.cols / inWidth
  if k < 2 then return ()
  let dx : ℚ := inWidth - inWidth / k
  slices (squareImg src) inWidth (advance dx (turns (k + 1)) 0) (advance dx (turns (k + 1)) 0)

def Event.image : Event Pixel → Option (Mat Pixel)
  | .result m => some m
  | _ => none

def Event.corner : Event Pixel → Option Point
  | .transPts pt => some pt
  | _ => none

/-- The images and the points, in order. -/
def results (run : Traced (Event Pixel) Unit) : List (Mat Pixel) := run.log.filterMap Event.image
def corners (run : Traced (Event Pixel) Unit) : List Point := run.log.filterMap Event.corner

/-- A box that was found in a slice, in shares of the slice, as one in shares of the square. -/
def GetOriginRect (inRect : box) (transPt : Point) (inWidth srcWidth : Nat) : box where
  x := (inRect.x * inWidth + transPt.x) / srcWidth
  y := (inRect.y * inWidth + transPt.y) / srcWidth
  w := inRect.w * inWidth / srcWidth
  h := inRect.h * inWidth / srcWidth

/-- Every slice that is asked for lies in the square image, and together they are all of
it. -/
structure Sliced [Zero Pixel] (src : Mat Pixel) (run : Traced (Event Pixel) Unit) : Prop where
  inside : ∀ roi, .roi roi ∈ run.log → (squareImg src).Holds roi
  covers : ∀ x y : Nat, x < src.cols → y < src.cols → ∃ roi, .roi roi ∈ run.log ∧ roi.Covers x y

/-- Steps no longer than the width leave no gap. -/
theorem exists_step_covers {f w p : Nat} (hf : f ≤ w) (n : Nat) (hp : p < n * f + w) :
    ∃ i ≤ n, i * f ≤ p ∧ p < i * f + w := by
  induction n with
  | zero => exact ⟨0, le_refl 0, by omega, hp⟩
  | succ n ih =>
    by_cases h : (n + 1) * f ≤ p
    · exact ⟨n + 1, le_refl _, h, hp⟩
    · have hlt : p < n * f + w := by
        rw [Nat.succ_mul] at h
        omega
      obtain ⟨i, hi, hip⟩ := ih hlt
      exact ⟨i, Nat.le_succ_of_le hi, hip⟩

/-- Where `N` steps of the truncated length end, with `N` the quotient of the widths rounded
up. -/
theorem steps_land_iff {c w N : Nat} (hw : 0 < w) (hc : w < c) (hN : c ≤ N * w) :
    N * (w * (c - w) / c) = c - w ↔ N ∣ c - w ∧ (c - w) * (N * w - c) < N * c := by
  obtain ⟨e, he⟩ := Nat.exists_eq_add_of_le hN
  have hNpos : 0 < N := Nat.pos_of_ne_zero fun h => by
    rw [h, Nat.zero_mul] at hN
    omega
  rw [he, Nat.add_sub_cancel_left]
  generalize c - w = d
  constructor
  · intro h
    refine ⟨⟨_, h.symm⟩, ?_⟩
    have hlt : w * d < (w * d / c + 1) * c := Nat.lt_mul_of_div_lt (Nat.lt_succ_self _) (by omega)
    have hmul : d * (N * w) < N * ((w * d / c + 1) * c) := calc
      d * (N * w) = N * (w * d) := by ring
      _ < N * ((w * d / c + 1) * c) := Nat.mul_lt_mul_of_pos_left hlt hNpos
    have hright : N * ((w * d / c + 1) * c) = d * c + N * c := by
      rw [← Nat.mul_assoc, Nat.mul_add, h, Nat.mul_one, Nat.add_mul]
    rw [he, hright, Nat.mul_add] at hmul
    exact Nat.lt_of_add_lt_add_left hmul
  · rintro ⟨⟨m, rfl⟩, hlt⟩
    have hme : m * e < c := by
      rw [Nat.mul_assoc] at hlt
      exact Nat.lt_of_mul_lt_mul_left hlt
    have hval : w * (N * m) = m * c + m * e := by
      rw [← Nat.mul_add, ← he]
      ring
    congr 1
    rw [hval]
    exact Nat.div_eq_of_lt_le (Nat.le_add_right _ _) (by rw [Nat.succ_mul]; omega)

/-- The length of a step before it is cut. -/
theorem stepLength_eq {c w : Nat} (hw : 0 < w) (hc : w ≤ c) :
    (w : ℚ) - w / (c / w) = ((w * (c - w) : Nat) : ℚ) / (c : Nat) := by
  have hw' : (w : ℚ) ≠ 0 := by exact_mod_cast hw.ne'
  have hc' : (c : ℚ) ≠ 0 := by exact_mod_cast (hw.trans_le hc).ne'
  rw [Nat.cast_mul, Nat.cast_sub hc]
  field_simp

theorem lt_turns_iff {c w i : Nat} (hw : 0 < w) : i < turns ((c : ℚ) / w + 1) ↔ i ≤ (c + w - 1) / w := by
  have hw' : (0 : ℚ) < w := by exact_mod_cast hw
  have hcast : (i : ℚ) < c / w + 1 ↔ i * w < c + w := by
    rw [div_add_one hw'.ne', lt_div_iff₀ hw']
    exact_mod_cast Iff.rfl
  rw [lt_turns, hcast, Nat.le_div_iff_mul_le hw]
  omega

/-- Where the slices begin. -/
def positions (c w : Nat) : List ℤ := advance (w - w / (c / w)) (turns (c / w + 1)) 0

theorem mem_positions {c w : Nat} (hw : 0 < w) (hc : w ≤ c) {x : ℤ} :
    x ∈ positions c w ↔ ∃ i ≤ (c + w - 1) / w, x = ((i * (w * (c - w) / c) : Nat) : ℤ) := by
  have hfloor : ⌊(w : ℚ) - w / (c / w)⌋ = ((w * (c - w) / c : Nat) : ℤ) := by
    rw [stepLength_eq hw hc, Rat.floor_natCast_div_natCast, Int.natCast_ediv]
  have hnonneg : (0 : ℚ) ≤ w - w / (c / w) := by
    rw [stepLength_eq hw hc]
    positivity
  rw [positions, mem_advance_zero hnonneg]
  simp only [lt_turns_iff hw, hfloor, Nat.cast_mul]

section Slices

variable {square : Mat Pixel} {inWidth : Nat} {xs ys : List ℤ}

theorem roi_mem_log_slice {x y : ℤ} {roi : Rect} :
    .roi roi ∈ (slice square inWidth x y).log ↔ roi = ⟨x, y, inWidth, inWidth⟩ := by
  unfold slice
  rw [emit_bind]
  cases square.part ⟨x, y, inWidth, inWidth⟩ with
  | none => simp
  | some subImg => simp

theorem val_slice {x y : ℤ} (h : square.Holds ⟨x, y, inWidth, inWidth⟩) :
    (slice square inWidth x y).val = some () := by
  unfold slice
  rw [emit_bind, Mat.part, if_pos h]
  rfl

theorem exists_of_roi_mem_slices {roi : Rect} (h : .roi roi ∈ (slices square inWidth xs ys).log) :
    ∃ x ∈ xs, ∃ y ∈ ys, roi = ⟨x, y, inWidth, inWidth⟩ := by
  obtain ⟨x, hx, hcol⟩ := mem_log_of_forM h
  obtain ⟨y, hy, hroi⟩ := mem_log_of_forM hcol
  exact ⟨x, hx, y, hy, roi_mem_log_slice.mp hroi⟩

/-- When no slice leaves the square, every turn of the loops is reached. -/
theorem roi_mem_slices_of_inside (hinside : ∀ roi, .roi roi ∈ (slices square inWidth xs ys).log → square.Holds roi)
    {x y : ℤ} (hx : x ∈ xs) (hy : y ∈ ys) : .roi ⟨x, y, inWidth, inWidth⟩ ∈ (slices square inWidth xs ys).log := by
  let Q : Event Pixel → Prop := fun e => ∀ roi, e = .roi roi → square.Holds roi
  have hturn : ∀ x ∈ xs, (∀ e ∈ (ys.forM fun y => slice square inWidth x y).log, Q e) →
      (ys.forM fun y => slice square inWidth x y).val = some () := by
    intro x _ hcol
    refine val_forM_eq_some.mpr (val_of_log_forM (fun y _ hroi => ?_) hcol)
    exact val_slice (hroi _ (roi_mem_log_slice.mpr rfl) _ rfl)
  have hcols := val_of_log_forM hturn fun e he roi heq => hinside roi (heq ▸ he)
  have hrows := val_forM_eq_some.mp (hcols x hx)
  exact mem_log_forM hcols hx (mem_log_forM hrows hy (roi_mem_log_slice.mpr rfl))

end Slices

variable [Zero Pixel] {resize : Mat Pixel → Nat → Nat → Mat Pixel}

/-- Frames of at least two widths are cut. -/
theorem ImgToSlices_of_two_le {src : Mat Pixel} {inWidth : Nat} (hw : 0 < inWidth) (hc : 2 * inWidth ≤ src.cols) :
    ImgToSlices resize src inWidth = (do
      emit (.result (resize (squareImg src) inWidth inWidth))
      slices (squareImg src) inWidth (positions src.cols inWidth) (positions src.cols inWidth)) := by
  have hk : ¬((src.cols : ℚ) / inWidth < 2) := by
    rw [div_lt_iff₀ (by exact_mod_cast hw), not_lt]
    exact_mod_cast hc
  unfold ImgToSlices
  simp only [if_neg hk, positions]

theorem roi_mem_ImgToSlices {src : Mat Pixel} {inWidth : Nat} (hw : 0 < inWidth) (hc : 2 * inWidth ≤ src.cols)
    {roi : Rect} :
    .roi roi ∈ (ImgToSlices resize src inWidth).log ↔
      .roi roi ∈ (slices (squareImg src) inWidth (positions src.cols inWidth) (positions src.cols inWidth)).log := by
  rw [ImgToSlices_of_two_le hw hc, emit_bind, List.mem_cons]
  exact or_iff_right nofun

theorem squareImg_holds {src : Mat Pixel} {w a b : Nat} :
    (squareImg src).Holds ⟨a, b, w, w⟩ ↔ a + w ≤ src.cols ∧ b + w ≤ src.cols := by
  simp only [Mat.Holds, squareImg]
  omega

omit [Zero Pixel] in
theorem covers_iff {w a b x y : Nat} :
    (⟨a, b, w, w⟩ : Rect).Covers x y ↔ (a ≤ x ∧ x < a + w) ∧ b ≤ y ∧ y < b + w := by
  simp only [Rect.Covers]
  omega

/-- Slices at the first `N + 1` multiples of `f`, no longer a step than they are wide, are the
square when the last of them ends where it does. -/
theorem slices_sliced_iff {src : Mat Pixel} {w f N : Nat} {xs : List ℤ} (hw : 0 < w) (hc : w ≤ src.cols)
    (hf : f ≤ w) (hxs : ∀ x, x ∈ xs ↔ ∃ i ≤ N, x = ((i * f : Nat) : ℤ)) :
    Sliced src (slices (squareImg src) w xs xs) ↔ N * f = src.cols - w := by
  have hpos : ∀ i ≤ N, ((i * f : Nat) : ℤ) ∈ xs := fun i hi => (hxs _).mpr ⟨i, hi, rfl⟩
  have hle : ∀ i ≤ N, i * f ≤ N * f := fun i hi => Nat.mul_le_mul_right f hi
  constructor
  · intro h
    have hlast := roi_mem_slices_of_inside h.inside (hpos N (le_refl N)) (hpos N (le_refl N))
    have hend := (squareImg_holds.mp (h.inside _ hlast)).1
    -- the last pixel of the first row
    obtain ⟨roi, hroi, hcov⟩ := h.covers (src.cols - 1) 0 (by omega) (by omega)
    obtain ⟨x, hx, y, hy, rfl⟩ := exists_of_roi_mem_slices hroi
    obtain ⟨i, hi, rfl⟩ := (hxs x).mp hx
    obtain ⟨j, -, rfl⟩ := (hxs y).mp hy
    have hright := (covers_iff.mp hcov).1.2
    have hiN := hle i hi
    omega
  · intro hend
    have hinside : ∀ roi, .roi roi ∈ (slices (squareImg src) w xs xs).log → (squareImg src).Holds roi := by
      intro roi hroi
      obtain ⟨x, hx, y, hy, rfl⟩ := exists_of_roi_mem_slices hroi
      obtain ⟨i, hi, rfl⟩ := (hxs x).mp hx
      obtain ⟨j, hj, rfl⟩ := (hxs y).mp hy
      have hxi := hle i hi
      have hyj := hle j hj
      exact squareImg_holds.mpr ⟨by omega, by omega⟩
    refine ⟨hinside, fun x y hx hy => ?_⟩
    obtain ⟨i, hi, hxi⟩ := exists_step_covers hf N (show x < N * f + w by omega)
    obtain ⟨j, hj, hyj⟩ := exists_step_covers hf N (show y < N * f + w by omega)
    exact ⟨_, roi_mem_slices_of_inside hinside (hpos i hi) (hpos j hj), covers_iff.mpr ⟨hxi, hyj⟩⟩

theorem Sliced.of_iff {src : Mat Pixel} {run run' : Traced (Event Pixel) Unit}
    (h : ∀ roi, .roi roi ∈ run.log ↔ .roi roi ∈ run'.log) (hs : Sliced src run) : Sliced src run' := by
  refine ⟨fun roi hroi => hs.inside roi ((h roi).mpr hroi), fun x y hx hy => ?_⟩
  obtain ⟨roi, hroi, hcov⟩ := hs.covers x y hx hy
  exact ⟨roi, (h roi).mp hroi, hcov⟩

theorem Sliced.congr {src : Mat Pixel} {run run' : Traced (Event Pixel) Unit}
    (h : ∀ roi, .roi roi ∈ run.log ↔ .roi roi ∈ run'.log) : Sliced src run ↔ Sliced src run' :=
  ⟨Sliced.of_iff h, Sliced.of_iff fun roi => (h roi).symm⟩

/-- Where the steps of `ImgToSlices` end decides. -/
theorem sliced_iff_land {src : Mat Pixel} {inWidth : Nat} (hw : 0 < inWidth) (hc : 2 * inWidth ≤ src.cols) :
    Sliced src (ImgToSlices resize src inWidth) ↔
      (src.cols + inWidth - 1) / inWidth * (inWidth * (src.cols - inWidth) / src.cols) = src.cols - inWidth := by
  have hle : inWidth ≤ src.cols := by omega
  have hstep : inWidth * (src.cols - inWidth) / src.cols ≤ inWidth := by
    apply Nat.div_le_of_le_mul
    rw [Nat.mul_comm src.cols]
    exact Nat.mul_le_mul_left _ (Nat.sub_le _ _)
  rw [Sliced.congr fun _ => roi_mem_ImgToSlices hw hc]
  exact slices_sliced_iff hw hle hstep fun _ => mem_positions hw hle

/-- The slices are the square when the number of steps divides the way they go, and what the
truncations take from a step is less than a pixel for all of them. -/
theorem ImgToSlices_sliced_iff (src : Mat Pixel) (inWidth : Nat) (hw : 0 < inWidth) (hc : 2 * inWidth ≤ src.cols) :
    Sliced src (ImgToSlices resize src inWidth) ↔
      (src.cols + inWidth - 1) / inWidth ∣ src.cols - inWidth ∧
        (src.cols - inWidth) * ((src.cols + inWidth - 1) / inWidth * inWidth - src.cols) <
          (src.cols + inWidth - 1) / inWidth * src.cols := by
  have hN : src.cols ≤ (src.cols + inWidth - 1) / inWidth * inWidth := by
    have hlt : src.cols + inWidth - 1 < (src.cols + inWidth - 1) / inWidth * inWidth + inWidth := Nat.lt_div_mul_add hw
    omega
  rw [sliced_iff_land hw hc]
  exact steps_land_iff hw (by omega) hN

theorem sliced_two_across : Sliced (⟨720, 1280, fun _ _ => 0⟩ : Mat Nat)
    (ImgToSlices (fun m w h => ⟨h, w, fun i j => m.pixel (i * m.rows / h) (j * m.cols / w)⟩)
      ⟨720, 1280, fun _ _ => 0⟩ 640) :=
  (ImgToSlices_sliced_iff ⟨720, 1280, fun _ _ => 0⟩ 640 (by decide) (by decide)).mpr (by decide)

/-- Three times the width of the network: the last slices end two pixels before the edge. -/
theorem not_sliced_three_across : 0 < 640 ∧ 2 * 640 ≤ 1920 ∧ 1080 ≤ 1920 ∧
    ¬Sliced (⟨1080, 1920, fun _ _ => 0⟩ : Mat Nat)
      (ImgToSlices (fun m w h => ⟨h, w, fun i j => m.pixel (i * m.rows / h) (j * m.cols / w)⟩)
        ⟨1080, 1920, fun _ _ => 0⟩ 640) := by
  refine ⟨by decide, by decide, by decide, fun h => ?_⟩
  have hland := (sliced_iff_land (by decide) (by decide)).mp h
  exact absurd hland (by decide)

/-- A frame some whole number of times as wide as the network. -/
theorem multiple_sliced_iff {src : Mat Pixel} {inWidth k : Nat} (hw : 0 < inWidth) (hk : 2 ≤ k)
    (hcols : src.cols = k * inWidth) : Sliced src (ImgToSlices resize src inWidth) ↔ k ∣ inWidth := by
  have hc : 2 * inWidth ≤ src.cols := by
    rw [hcols]
    exact Nat.mul_le_mul_right inWidth hk
  have hN : (src.cols + inWidth - 1) / inWidth = k := by
    rw [hcols, Nat.add_sub_assoc hw, Nat.add_comm, Nat.add_mul_div_right _ _ hw, Nat.div_eq_of_lt (by omega),
      Nat.zero_add]
  have hdvd : k ∣ k * inWidth - inWidth ↔ k ∣ inWidth :=
    Nat.dvd_sub_iff_right (Nat.le_mul_of_pos_left _ (by omega)) (Nat.dvd_mul_right k inWidth)
  have hpos : 0 < k * (k * inWidth) := Nat.mul_pos (by omega) (Nat.mul_pos (by omega) hw)
  rw [sliced_iff_land hw hc, hN, steps_land_iff hw (by omega) (by omega), hcols, Nat.sub_self, Nat.mul_zero, hdvd]
  exact and_iff_left hpos

omit [Zero Pixel] in
theorem val_slice_eq_some {square : Mat Pixel} {inWidth : Nat} {x y : ℤ} :
    (slice square inWidth x y).val = some () ↔ square.Holds ⟨x, y, inWidth, inWidth⟩ := by
  refine ⟨fun h => ?_, val_slice⟩
  by_contra hout
  unfold slice at h
  rw [emit_bind, Mat.part, if_neg hout] at h
  cases h

omit [Zero Pixel] in
theorem val_slices_eq_some {square : Mat Pixel} {inWidth : Nat} {xs ys : List ℤ} :
    (slices square inWidth xs ys).val = some () ↔ ∀ x ∈ xs, ∀ y ∈ ys, square.Holds ⟨x, y, inWidth, inWidth⟩ := by
  unfold slices
  simp only [val_forM_eq_some, val_slice_eq_some]

/-- The call returns when the last step does not pass the last place for a slice. -/
theorem ImgToSlices_returns_iff {src : Mat Pixel} {inWidth : Nat} (hw : 0 < inWidth) (hc : 2 * inWidth ≤ src.cols) :
    (ImgToSlices resize src inWidth).val = some () ↔
      (src.cols + inWidth - 1) / inWidth * (inWidth * (src.cols - inWidth) / src.cols) ≤ src.cols - inWidth := by
  have hle : inWidth ≤ src.cols := by omega
  have hval : (ImgToSlices resize src inWidth).val =
      (slices (squareImg src) inWidth (positions src.cols inWidth) (positions src.cols inWidth)).val := by
    rw [ImgToSlices_of_two_le hw hc, emit_bind]
  rw [hval, val_slices_eq_some]
  constructor
  · intro h
    have hmem := (mem_positions hw hle).mpr ⟨_, le_refl _, rfl⟩
    have hend := (squareImg_holds.mp (h _ hmem _ hmem)).1
    omega
  · intro h x hx y hy
    obtain ⟨i, hi, rfl⟩ := (mem_positions hw hle).mp hx
    obtain ⟨j, hj, rfl⟩ := (mem_positions hw hle).mp hy
    have hxi := (Nat.mul_le_mul_right (inWidth * (src.cols - inWidth) / src.cols) hi).trans h
    have hyj := (Nat.mul_le_mul_right (inWidth * (src.cols - inWidth) / src.cols) hj).trans h
    exact squareImg_holds.mpr ⟨by omega, by omega⟩

omit [Zero Pixel] in
theorem images_slices (square : Mat Pixel) (inWidth : Nat) (xs ys : List ℤ) :
    (results (slices square inWidth xs ys)).map some =
      (corners (slices square inWidth xs ys)).map fun pt => square.part ⟨pt.x, pt.y, inWidth, inWidth⟩ := by
  let P : List (Event Pixel) → Prop := fun l =>
    (l.filterMap Event.image).map some =
      (l.filterMap Event.corner).map fun pt => square.part ⟨pt.x, pt.y, inWidth, inWidth⟩
  have happend : ∀ l l', P l → P l' → P (l ++ l') := by
    intro l l' hl hl'
    simp only [P, List.filterMap_append, List.map_append] at hl hl' ⊢
    rw [hl, hl']
  have hslice : ∀ x y, P (slice square inWidth x y).log := by
    intro x y
    unfold slice
    rw [emit_bind]
    cases hpart : square.part ⟨x, y, inWidth, inWidth⟩ with
    | none => rfl
    | some subImg => exact congrArg (fun m => [m]) hpart.symm
  have hcol : ∀ x, P (ys.forM fun y => slice square inWidth x y).log := fun x =>
    Traced.log_forM_induction (P := P) rfl happend ys fun y _ => hslice x y
  exact Traced.log_forM_induction (P := P) rfl happend xs fun x _ => hcol x

/-- The images behind the first are the parts of the square at the corners. -/
theorem results_eq_parts (src : Mat Pixel) (inWidth : Nat) :
    (results (ImgToSlices resize src inWidth)).tail.map some =
      (corners (ImgToSlices resize src inWidth)).map fun pt => (squareImg src).part ⟨pt.x, pt.y, inWidth, inWidth⟩ := by
  by_cases hk : (src.cols : ℚ) / inWidth < 2
  · unfold ImgToSlices
    simp only [emit_bind, if_pos hk]
    rfl
  · unfold ImgToSlices
    simp only [emit_bind, if_neg hk]
    exact images_slices (squareImg src) inWidth _ _

theorem share_le_one {b p w c : ℚ} (hw : 0 ≤ w) (hc : 0 < c) (hb : 0 ≤ b ∧ b ≤ 1) (hp : 0 ≤ p) (hpw : p + w ≤ c) :
    0 ≤ (b * w + p) / c ∧ (b * w + p) / c ≤ 1 := by
  have hlow : 0 ≤ b * w := mul_nonneg hb.1 hw
  have hhigh : b * w ≤ w := mul_le_of_le_one_left hw hb.2
  refine ⟨div_nonneg (by linarith) hc.le, ?_⟩
  rw [div_le_one hc]
  linarith

/-- A box whose middle is in its slice has its middle in the square. -/
theorem GetOriginRect_inside {src : Mat Pixel} {inWidth : Nat} {pt : Point} {b : box} (hc : 0 < src.cols)
    (hroi : (squareImg src).Holds ⟨pt.x, pt.y, inWidth, inWidth⟩) (hx : 0 ≤ b.x ∧ b.x ≤ 1) (hy : 0 ≤ b.y ∧ b.y ≤ 1) :
    let out := GetOriginRect b pt inWidth src.cols
    (0 ≤ out.x ∧ out.x ≤ 1) ∧ 0 ≤ out.y ∧ out.y ≤ 1 := by
  obtain ⟨hx0, -, hxw, hy0, -, hyw⟩ := hroi
  have hc' : (0 : ℚ) < src.cols := by exact_mod_cast hc
  have hw : (0 : ℚ) ≤ inWidth := Nat.cast_nonneg inWidth
  constructor
  · exact share_le_one hw hc' hx (by exact_mod_cast hx0) (by exact_mod_cast hxw)
  · exact share_le_one hw hc' hy (by exact_mod_cast hy0) (by exact_mod_cast hyw)

end Perception.Img
