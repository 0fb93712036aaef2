import Mathlib.Order.Interval.Set.UnorderedInterval
import Perception.Lib.Collect
import Perception.Lib.Truncate

/-!
# Where a face is in the frame

`PreprocMat` fits a frame into the input of the network, at its top left; `FaceFeatureExt`
takes the boxes found there back to the frame. The numbers are exact, apart from the
truncations of the code. What the network finds is arbitrary.
-/
namespace Perception.Alg.Face

set_option autoImplicit false

open Perception.Lib

def net_width : Nat := 800
def net_height : Nat := 464

structure Size where
  cols : Nat
  rows : Nat
  deriving DecidableEq

structure FaceRect where
  x : ℤ
  y : ℤ
  width : ℤ
  height : ℤ
  deriving DecidableEq

structure FaceRectInfo where
  bbox : FaceRect
  score : ℚ
  deriving DecidableEq

/-- `faceinfos[i]`, its score and its corners. -/
structure FaceInfo where
  score : ℚ
  x1 : ℚ
  y1 : ℚ
  x2 : ℚ
  y2 : ℚ

/-- `cv::resize`, which throws for an empty size. -/
def resize (dsize : Size) : Option Size := if dsize.cols = 0 ∨ dsize.rows = 0 then none else some dsize

/-- `cv::copyMakeBorder` below and on the right, which throws for a negative border. -/
def copyMakeBorder (src : Size) (bottom right : ℤ) : Option Size :=
  if bottom < 0 ∨ right < 0 then none else some ⟨src.cols + right.toNat, src.rows + bottom.toNat⟩

structure Prepared where
  bResize : Bool
  s32Width : Nat
  s32Height : Nat
  dstImg : Size
  deriving DecidableEq

/-- The size that the frame gets: the width of the network, or its height. -/
def fitSize (srcImg : Size) : Size :=
  let s32Height := net_width * srcImg.rows / srcImg.cols
  if s32Height > net_height then ⟨net_height * srcImg.cols / srcImg.rows, net_height⟩ else ⟨net_width, s32Height⟩

def PreprocMat (srcImg : Size) : Option Prepared :=
  if net_width ≠ srcImg.cols ∨ net_height ≠ srcImg.rows then do
    let fit := fitSize srcImg
    let dstImg ← resize fit
    let dstImg ← copyMakeBorder dstImg ((net_height : ℤ) - fit.rows) ((net_width : ℤ) - fit.cols)
    pure ⟨true, fit.cols, fit.rows, dstImg⟩
  else some ⟨false, net_width, net_height, srcImg⟩

namespace FaceRect

def ResizeRect (r : FaceRect) (scale : ℚ) : FaceRect :=
  ⟨truncate (r.x * scale), truncate (r.y * scale), truncate (r.width * scale), truncate (r.height * scale)⟩

/-- The box lies in the first columns and rows of an image. -/
def Inside (r : FaceRect) (size : Size) : Prop :=
  0 ≤ r.x ∧ 0 ≤ r.width ∧ r.x + r.width ≤ size.cols ∧ 0 ≤ r.y ∧ 0 ≤ r.height ∧ r.y + r.height ≤ size.rows

instance (r : FaceRect) (size : Size) : Decidable (r.Inside size) := inferInstanceAs (Decidable (_ ∧ _))

end FaceRect

/-- A face of the network, unless its box is empty. -/
def faceItem (srcImg : Size) (s32ReWidth s32ReHeight : Nat) (faceinfo : FaceInfo) : Option FaceRectInfo :=
  let bbox : FaceRect :=
    ⟨truncate faceinfo.x1, truncate faceinfo.y1, truncate (faceinfo.x2 - faceinfo.x1), truncate (faceinfo.y2 - faceinfo.y1)⟩
  if bbox.width = 0 ∨ bbox.height = 0 then none
  else if 0 < s32ReHeight ∧ 0 < s32ReWidth then
    some ⟨⟨truncate (bbox.x * (srcImg.cols / s32ReWidth)), truncate (bbox.y * (srcImg.rows / s32ReHeight)),
      truncate (bbox.width * (srcImg.cols / s32ReWidth)), truncate (bbox.height * (srcImg.rows / s32ReHeight))⟩,
      faceinfo.score⟩
  else some ⟨bbox, faceinfo.score⟩

def OutputTrans (srcImg : Size) (s32ReWidth s32ReHeight : Nat) (faceinfos : List FaceInfo) : List FaceRectInfo :=
  faceinfos.filterMap (faceItem srcImg s32ReWidth s32ReHeight)

/-- The face is cut out of the input of the network, which throws unless it lies there, and
its box taken back. -/
def restore (dstImg : Size) (scale : ℚ) (val : FaceRectInfo) : Option FaceRectInfo :=
  if val.bbox.Inside dstImg then some { val with bbox := val.bbox.ResizeRect scale } else none

/-- The faces of a frame, in which the network finds `faceinfos`. -/
def FaceFeatureExt (matFaceImg : Size) (faceinfos : List FaceInfo) : Option (List FaceRectInfo) := do
  let p ← PreprocMat matFaceImg
  let scale : ℚ := matFaceImg.rows / p.dstImg.rows
  let vecFaceRect :=
    OutputTrans matFaceImg (if p.bResize then 0 else p.s32Width) (if p.bResize then 0 else p.s32Height) faceinfos
  vecFaceRect.mapM (restore p.dstImg scale)

/-- What the two scales of the resize make of a length in the network; they differ by the
truncation of the size that the frame is fitted to. -/
def Scaled (srcImg fit : Size) (v v' : ℤ) : Prop :=
  v' ∈ Set.uIcc (truncate (v * (srcImg.cols / fit.cols))) (truncate (v * (srcImg.rows / fit.rows)))

/-- A box of the network and the box that is reported for it. -/
structure MapsBack (srcImg fit : Size) (inRect outRect : FaceRect) : Prop where
  x : Scaled srcImg fit inRect.x outRect.x
  y : Scaled srcImg fit inRect.y outRect.y
  width : Scaled srcImg fit inRect.width outRect.width
  height : Scaled srcImg fit inRect.height outRect.height
  inside : inRect.Inside fit → outRect.Inside srcImg

theorem PreprocMat_resized {srcImg : Size} {p : Prepared} (hpre : PreprocMat srcImg = some p) (hresize : p.bResize = true) :
    p.s32Width = (fitSize srcImg).cols ∧ p.s32Height = (fitSize srcImg).rows ∧ 0 < p.s32Width ∧ 0 < p.s32Height ∧
      p.s32Width ≤ net_width ∧ p.s32Height ≤ net_height ∧ p.dstImg = ⟨net_width, net_height⟩ := by
  unfold PreprocMat at hpre
  split at hpre
  · obtain ⟨dsize, hdsize, hpre⟩ := Option.bind_eq_some_iff.mp hpre
    obtain ⟨dstImg, hdst, hpre⟩ := Option.bind_eq_some_iff.mp hpre
    obtain rfl := Option.some.inj hpre
    rw [resize, Option.ite_none_left_eq_some] at hdsize
    obtain ⟨hpos, heq⟩ := hdsize
    obtain rfl := Option.some.inj heq
    rw [copyMakeBorder, Option.ite_none_left_eq_some] at hdst
    obtain ⟨hborder, heq⟩ := hdst
    obtain rfl := Option.some.inj heq
    have hfit : 0 < (fitSize srcImg).cols ∧ 0 < (fitSize srcImg).rows ∧
        (fitSize srcImg).cols ≤ net_width ∧ (fitSize srcImg).rows ≤ net_height := by omega
    obtain ⟨hcols, hrows, hwidth, hheight⟩ := hfit
    refine ⟨rfl, rfl, hcols, hrows, hwidth, hheight, ?_⟩
    rw [Size.mk.injEq]
    omega
  · obtain rfl := Option.some.inj hpre
    cases hresize

/-- A frame that is resized gets the height of the network, or its width. -/
theorem fitSize_cases {srcImg : Size} (hrows : 0 < (fitSize srcImg).rows) :
    (net_height + 1) * srcImg.cols ≤ net_width * srcImg.rows ∧
        fitSize srcImg = ⟨net_height * srcImg.cols / srcImg.rows, net_height⟩ ∨
      0 < srcImg.cols ∧ net_width * srcImg.rows < (net_height + 1) * srcImg.cols ∧
        fitSize srcImg = ⟨net_width, net_width * srcImg.rows / srcImg.cols⟩ := by
  unfold fitSize at hrows ⊢
  rcases Nat.eq_zero_or_pos srcImg.cols with hcols | hcols
  · rw [hcols, Nat.div_zero] at hrows
    cases hrows
  · by_cases htall : net_width * srcImg.rows / srcImg.cols > net_height
    · exact .inl ⟨(Nat.le_div_iff_mul_le hcols).mp htall, if_pos htall⟩
    · have hwide := (Nat.div_lt_iff_lt_mul hcols).mp (Nat.lt_succ_of_le (not_lt.mp htall))
      exact .inr ⟨hcols, hwide, if_neg htall⟩

/-- Where the scale of the code is that of the resize, and nothing gets past the right edge,
in terms of the frame. -/
theorem fitSize_iff {srcImg : Size} (hrows : 0 < (fitSize srcImg).rows) :
    (fitSize srcImg).rows = net_height ∧ (fitSize srcImg).cols * srcImg.rows / net_height ≤ srcImg.cols ↔
      net_height * srcImg.cols ≤ net_width * srcImg.rows ∧
        ((net_height + 1) * srcImg.cols ≤ net_width * srcImg.rows ∨
          net_width * srcImg.rows < net_height * (srcImg.cols + 1)) := by
  rcases fitSize_cases hrows with ⟨htall, hfit⟩ | ⟨hcolsPos, hwide, hfit⟩
  · have hspan : net_height * srcImg.cols / srcImg.rows * srcImg.rows / net_height ≤ srcImg.cols :=
      Nat.div_le_of_le_mul (Nat.div_mul_le_self _ _)
    rw [hfit]
    refine iff_of_true ⟨rfl, hspan⟩ ⟨?_, .inl htall⟩
    exact (Nat.mul_le_mul_right _ (Nat.le_succ _)).trans htall
  · have hle : net_width * srcImg.rows / srcImg.cols ≤ net_height :=
      Nat.le_of_lt_succ ((Nat.div_lt_iff_lt_mul hcolsPos).mpr hwide)
    have heq : net_width * srcImg.rows / srcImg.cols = net_height ↔ net_height * srcImg.cols ≤ net_width * srcImg.rows := by
      rw [← Nat.le_div_iff_mul_le hcolsPos]
      exact ⟨Eq.ge, hle.antisymm⟩
    have hspan : net_width * srcImg.rows / net_height ≤ srcImg.cols ↔
        net_width * srcImg.rows < net_height * (srcImg.cols + 1) := by
      rw [← Nat.lt_succ_iff, Nat.div_lt_iff_lt_mul (by decide), Nat.mul_comm net_height]
    rw [hfit]
    simp only [heq, hspan, not_le.mpr hwide, false_or]

theorem Scaled_natCast {srcImg fit : Size} {n : Nat} {v' : ℤ} :
    Scaled srcImg fit n v' ↔
      v' ∈ Set.uIcc ((n * srcImg.cols / fit.cols : Nat) : ℤ) ((n * srcImg.rows / fit.rows : Nat) : ℤ) := by
  unfold Scaled
  rw [Int.cast_natCast, truncate_natCast_mul_div, truncate_natCast_mul_div]

/-- No box gets past the lower edge; past the right edge it depends on the widest. -/
theorem ResizeRect_inside {srcImg fit : Size} (hrows : fit.rows ≤ net_height)
    (hcols : fit.cols * srcImg.rows / net_height ≤ srcImg.cols) {r : FaceRect} (hin : r.Inside fit) :
    (r.ResizeRect (srcImg.rows / net_height)).Inside srcImg := by
  have hscale : (0 : ℚ) ≤ srcImg.rows / net_height := by positivity
  have hnonneg : ∀ v : ℤ, 0 ≤ v → 0 ≤ truncate (v * (srcImg.rows / net_height)) := fun v hv =>
    truncate_nonneg (mul_nonneg (by exact_mod_cast hv) hscale)
  obtain ⟨hx, hw, hxw, hy, hh, hyh⟩ := hin
  have hright := truncate_mul_add_le hscale hx hw hxw
  have hbelow := truncate_mul_add_le hscale hy hh hyh
  rw [Int.cast_natCast, truncate_natCast_mul_div] at hright hbelow
  have hheight : fit.rows * srcImg.rows / net_height ≤ srcImg.rows :=
    Nat.div_le_of_le_mul (Nat.mul_le_mul_right _ hrows)
  exact ⟨hnonneg _ hx, hnonneg _ hw, hright.trans (by exact_mod_cast hcols),
    hnonneg _ hy, hnonneg _ hh, hbelow.trans (by exact_mod_cast hheight)⟩

/-- For a frame that gets the height of the network the scale of the code is one of the
resize. -/
theorem ResizeRect_mapsBack {srcImg fit : Size} (hrows : fit.rows = net_height)
    (hcols : fit.cols * srcImg.rows / net_height ≤ srcImg.cols) (r : FaceRect) :
    MapsBack srcImg fit r (r.ResizeRect (srcImg.rows / net_height)) := by
  have hmem : ∀ v : ℤ, Scaled srcImg fit v (truncate (v * (srcImg.rows / net_height))) := by
    intro v
    rw [Scaled, hrows]
    exact Set.right_mem_uIcc
  exact ⟨hmem _, hmem _, hmem _, hmem _, ResizeRect_inside hrows.le hcols⟩

/-- A box as wide as the frame tells whether its width comes back. -/
theorem fit_of_mapsBack {srcImg : Size} (hcols : 0 < (fitSize srcImg).cols) (hrows : 0 < (fitSize srcImg).rows)
    (h : MapsBack srcImg (fitSize srcImg) ⟨0, 0, (fitSize srcImg).cols, 1⟩
      ((⟨0, 0, (fitSize srcImg).cols, 1⟩ : FaceRect).ResizeRect (srcImg.rows / net_height))) :
    (fitSize srcImg).rows = net_height ∧ (fitSize srcImg).cols * srcImg.rows / net_height ≤ srcImg.cols := by
  have hzero : truncate (((0 : ℤ) : ℚ) * (srcImg.rows / net_height)) = 0 := by
    rw [Int.cast_zero, zero_mul]
    exact truncate_intCast 0
  have hwidth := h.width
  simp only [FaceRect.ResizeRect, Int.cast_natCast, truncate_natCast_mul_div] at hwidth
  rw [Scaled_natCast, Nat.mul_div_cancel_left _ hcols, Set.mem_uIcc] at hwidth
  have hin : (⟨0, 0, (fitSize srcImg).cols, 1⟩ : FaceRect).Inside (fitSize srcImg) := by
    simp only [FaceRect.Inside]
    omega
  obtain ⟨-, -, hright, -⟩ := h.inside hin
  simp only [FaceRect.ResizeRect, hzero, Int.cast_natCast, truncate_natCast_mul_div, zero_add] at hright
  refine ⟨?_, by exact_mod_cast hright⟩
  rcases fitSize_cases hrows with ⟨-, hfit⟩ | ⟨hcolsPos, hwide, hfit⟩
  · rw [hfit]
  · simp only [hfit] at hwidth hrows ⊢
    by_contra hne
    have hlt : net_width * srcImg.rows / srcImg.cols < net_height :=
      lt_of_le_of_ne (Nat.le_of_lt_succ ((Nat.div_lt_iff_lt_mul hcolsPos).mpr hwide)) hne
    -- the scale of the code makes the width less than that of the frame, the resize does not
    have hshort : net_width * srcImg.rows / net_height < srcImg.cols := by
      rw [Nat.div_lt_iff_lt_mul (by decide), Nat.mul_comm srcImg.cols]
      exact (Nat.div_lt_iff_lt_mul hcolsPos).mp hlt
    have hlong : srcImg.cols ≤ net_width * srcImg.rows / (net_width * srcImg.rows / srcImg.cols) :=
      (Nat.le_div_iff_mul_le hrows).mpr (Nat.mul_div_le _ _)
    omega

/-- The boxes of the network, as `OutputTrans` leaves them for a frame that was resized. -/
def detected (srcImg : Size) (faceinfos : List FaceInfo) : List FaceRectInfo := OutputTrans srcImg 0 0 faceinfos

theorem FaceFeatureExt_of_resized {srcImg : Size} {p : Prepared} (hpre : PreprocMat srcImg = some p)
    (hresize : p.bResize = true) (faceinfos : List FaceInfo) :
    FaceFeatureExt srcImg faceinfos =
      (detected srcImg faceinfos).mapM (restore ⟨net_width, net_height⟩ (srcImg.rows / net_height)) := by
  obtain ⟨-, -, -, -, -, -, hdst⟩ := PreprocMat_resized hpre hresize
  unfold FaceFeatureExt
  rw [hpre, Option.bind_eq_bind, Option.bind_some]
  simp only [hresize, hdst, if_true]
  rfl

/-- A box of the network as it is found. -/
def FaceInfo.at (x y width height : Nat) : FaceInfo := ⟨1, x, y, x + width, y + height⟩

theorem detected_at {srcImg : Size} {x y width height : Nat} (hw : 0 < width) (hh : 0 < height) :
    detected srcImg [.at x y width height] = [⟨⟨x, y, width, height⟩, 1⟩] := by
  have hne : ¬((width : ℤ) = 0 ∨ (height : ℤ) = 0) := by omega
  have hitem : faceItem srcImg 0 0 (.at x y width height) = some ⟨⟨x, y, width, height⟩, 1⟩ := by
    unfold faceItem FaceInfo.at
    simp only [add_sub_cancel_left, truncate_natCast, if_neg hne]
    rfl
  rw [detected, OutputTrans, List.filterMap_cons_some hitem]
  rfl

/-- The boxes that are reported for a resized frame are those of the network, taken back, for
frames that get the height of the network without getting too wide. -/
theorem FaceFeatureExt_mapsBack_iff (srcImg : Size) (p : Prepared) (hpre : PreprocMat srcImg = some p)
    (hresize : p.bResize = true) :
    (∀ faceinfos vecFaceRect, FaceFeatureExt srcImg faceinfos = some vecFaceRect →
        List.Forall₂ (fun det val => MapsBack srcImg ⟨p.s32Width, p.s32Height⟩ det.bbox val.bbox)
          (detected srcImg faceinfos) vecFaceRect) ↔
      net_height * srcImg.cols ≤ net_width * srcImg.rows ∧
        ((net_height + 1) * srcImg.cols ≤ net_width * srcImg.rows ∨
          net_width * srcImg.rows < net_height * (srcImg.cols + 1)) := by
  obtain ⟨hw, hh, hcols, hrows, hwidth, -⟩ := PreprocMat_resized hpre hresize
  rw [hw] at hcols hwidth
  rw [hh] at hrows
  rw [hw, hh, ← fitSize_iff hrows]
  constructor
  · intro h
    let box : FaceRect := ⟨0, 0, (fitSize srcImg).cols, 1⟩
    have hdetected := @detected_at srcImg 0 0 (fitSize srcImg).cols 1 hcols Nat.one_pos
    have hin : box.Inside ⟨net_width, net_height⟩ := by
      simp only [box, FaceRect.Inside, net_height]
      omega
    have hreported : FaceFeatureExt srcImg [.at 0 0 (fitSize srcImg).cols 1] =
        some [⟨box.ResizeRect (srcImg.rows / net_height), 1⟩] := by
      rw [FaceFeatureExt_of_resized hpre hresize, hdetected, mapM_eq_some_iff]
      exact .cons (if_pos hin) .nil
    have hmaps := h _ _ hreported
    rw [hdetected, List.forall₂_cons] at hmaps
    exact fit_of_mapsBack hcols hrows hmaps.1
  · rintro ⟨hheight, hspan⟩ faceinfos vecFaceRect hreported
    rw [FaceFeatureExt_of_resized hpre hresize, mapM_eq_some_iff] at hreported
    apply hreported.imp
    intro det val hval
    rw [restore, Option.ite_none_right_eq_some] at hval
    obtain ⟨-, heq⟩ := hval
    obtain rfl := Option.some.inj heq
    exact ResizeRect_mapsBack hheight hspan det.bbox

theorem portrait_mapsBack : PreprocMat ⟨1080, 1920⟩ = some ⟨true, 261, 464, ⟨800, 464⟩⟩ ∧
    List.Forall₂ (fun det val : FaceRectInfo => MapsBack ⟨1080, 1920⟩ ⟨261, 464⟩ det.bbox val.bbox)
      (detected ⟨1080, 1920⟩ [.at 10 20 30 40]) [⟨⟨41, 82, 124, 165⟩, 1⟩] :=
  ⟨by decide, (FaceFeatureExt_mapsBack_iff ⟨1080, 1920⟩ ⟨true, 261, 464, ⟨800, 464⟩⟩ (by decide) rfl).mpr (by decide)
    [.at 10 20 30 40] [⟨⟨41, 82, 124, 165⟩, 1⟩] (by decide +kernel)⟩

/-- A full HD frame: the box of all of it comes back smaller. -/
theorem not_mapsBack_full_hd : PreprocMat ⟨1920, 1080⟩ = some ⟨true, 800, 450, ⟨800, 464⟩⟩ ∧
    FaceFeatureExt ⟨1920, 1080⟩ [.at 0 0 800 450] = some [⟨⟨0, 0, 1862, 1047⟩, 1⟩] ∧
    ¬List.Forall₂ (fun det val : FaceRectInfo => MapsBack ⟨1920, 1080⟩ ⟨800, 450⟩ det.bbox val.bbox)
      (detected ⟨1920, 1080⟩ [.at 0 0 800 450]) [⟨⟨0, 0, 1862, 1047⟩, 1⟩] := by
  refine ⟨by decide, by decide +kernel, fun h => ?_⟩
  rw [detected_at (by decide) (by decide), List.forall₂_cons] at h
  have hwidth := Scaled_natCast.mp h.1.width
  rw [Set.mem_uIcc] at hwidth
  exact absurd hwidth (by decide)

theorem truncate_mul_one (v : ℤ) : truncate (v * 1) = v := by
  rw [mul_one, truncate_intCast]

theorem ResizeRect_one (r : FaceRect) : r.ResizeRect 1 = r := by
  unfold FaceRect.ResizeRect
  simp only [truncate_mul_one]

/-- The scales of `OutputTrans` are one. -/
theorem faceItem_net_size (faceinfo : FaceInfo) :
    faceItem ⟨net_width, net_height⟩ net_width net_height faceinfo =
      faceItem ⟨net_width, net_height⟩ 0 0 faceinfo := by
  have hcols : (net_width : ℚ) / net_width = 1 := div_self (by decide)
  have hrows : (net_height : ℚ) / net_height = 1 := div_self (by decide)
  have hpos : 0 < net_height ∧ 0 < net_width := by decide
  have hzero : ¬(0 < 0 ∧ 0 < 0) := by decide
  unfold faceItem
  simp only [hcols, hrows, truncate_mul_one, if_pos hpos, if_neg hzero]

theorem OutputTrans_net_size (faceinfos : List FaceInfo) :
    OutputTrans ⟨net_width, net_height⟩ net_width net_height faceinfos =
      OutputTrans ⟨net_width, net_height⟩ 0 0 faceinfos :=
  List.filterMap_congr fun faceinfo _ => faceItem_net_size faceinfo

/-- Such a frame is left as it is, and so are its boxes. -/
theorem FaceFeatureExt_net_size {faceinfos : List FaceInfo} {vecFaceRect : List FaceRectInfo}
    (h : FaceFeatureExt ⟨net_width, net_height⟩ faceinfos = some vecFaceRect) :
    vecFaceRect = detected ⟨net_width, net_height⟩ faceinfos := by
  have hpre : PreprocMat ⟨net_width, net_height⟩ = some ⟨false, net_width, net_height, ⟨net_width, net_height⟩⟩ := rfl
  have hscale : (net_height : ℚ) / net_height = 1 := div_self (by decide)
  have htrans : OutputTrans ⟨net_width, net_height⟩ net_width net_height faceinfos =
      detected ⟨net_width, net_height⟩ faceinfos := OutputTrans_net_size faceinfos
  unfold FaceFeatureExt at h
  rw [hpre, Option.bind_eq_bind, Option.bind_some] at h
  simp only [hscale, htrans, Bool.false_eq_true, if_false] at h
  rw [mapM_eq_some_iff] at h
  have hsame : List.Forall₂ (· = ·) (detected ⟨net_width, net_height⟩ faceinfos) vecFaceRect := by
    apply h.imp
    intro det val hval
    rw [restore, Option.ite_none_right_eq_some, ResizeRect_one] at hval
    exact Option.some.inj hval.2
  exact (List.forall₂_eq_eq_eq ▸ hsame).symm

end Perception.Alg.Face
