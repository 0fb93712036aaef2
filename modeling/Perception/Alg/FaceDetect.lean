import Perception.Alg.Priorbox

/-!
# The faces that the network finds

From the numbers of the network to the boxes that `FaceFeatureExt` cuts out. The numbers are
arbitrary and exact; so is the exponential function, about which nothing is needed.
-/
namespace Perception.Alg.Face

set_option autoImplicit false

open Perception.Lib

/-- The two buffers of the network; `conf_data` is as long as `conf_data_length` says. -/
structure Outputs where
  loc_data : Nat → ℚ
  conf_data : Nat → ℚ
  conf_data_length : Nat

namespace Outputs

def mbox_num (o : Outputs) : Nat := o.conf_data_length / 2

def class1_confs (o : Outputs) (i : Nat) : ℚ := o.conf_data (i * 2 + 1)

end Outputs

/-- The prior `p`, moved and stretched by the four numbers at `idx`. Two of the borders of the
image cut off each side of a box, the other two do not. -/
def DecodeBBox (exp : ℚ → ℚ) (t_bboxes : Nat → ℚ) (idx : Nat) (p : BBox) : BBox :=
  let p_bbox_w := p.xmax - p.xmin
  let p_bbox_h := p.ymax - p.ymin
  let p_bbox_cx := (p.xmax + p.xmin) / 2
  let p_bbox_cy := (p.ymax + p.ymin) / 2
  let b_bbox_cx := 1 / 10 * t_bboxes (idx + 0) * p_bbox_w + p_bbox_cx
  let b_bbox_cy := 1 / 10 * t_bboxes (idx + 1) * p_bbox_h + p_bbox_cy
  let b_bbox_w := exp (2 / 10 * t_bboxes (idx + 2)) * p_bbox_w
  let b_bbox_h := exp (2 / 10 * t_bboxes (idx + 3)) * p_bbox_h
  let xmin := b_bbox_cx - b_bbox_w / 2
  let ymin := b_bbox_cy - b_bbox_h / 2
  let xmax := b_bbox_cx + b_bbox_w / 2
  let ymax := b_bbox_cy + b_bbox_h / 2
  ⟨if xmin < 0 then 0 else xmin, if ymin < 0 then 0 else ymin, if xmax > 1 then 1 else xmax, if ymax > 1 then 1 else ymax⟩

def DecodeBBoxes (exp : ℚ → ℚ) (t_bboxes : Nat → ℚ) (p_bboxes : List BBox) (i : Nat) : BBox :=
  DecodeBBox exp t_bboxes (i * 4) (p_bboxes.getD i ⟨0, 0, 0, 0⟩)

def fThreshold : ℚ := 9 / 10
def conf_thresh : ℚ := 1 / 100
def nms_thresh : ℚ := 15 / 100
def top_k : ℤ := 100

/-- `result` -/
def faceInfo (image : Size) (score : ℚ) (b : BBox) : FaceInfo :=
  ⟨score, b.xmin * image.cols, b.ymin * image.rows, b.xmax * image.cols, b.ymax * image.rows⟩

/-- The second half of `Output`: the boxes of `indices`, best first. -/
def results (image : Size) (class1_confs : Nat → ℚ) (b_bboxes : Nat → BBox) (face_thresh : ℚ) (indices : List Nat) :
    List FaceInfo :=
  let det_num := if (indices.length : ℤ) > top_k then top_k.toNat else indices.length
  let idx_scores := (indices.map fun idx => (idx, class1_confs idx)).mergeSort
    fun pair1 pair2 => !SortScorePairDescend pair2 pair1
  ((idx_scores.take det_num).filter fun pair => !decide (pair.2 < face_thresh)).map fun pair =>
    faceInfo image pair.2 (b_bboxes pair.1)

/-- `outputs`; without priors `DecodeBBoxes` reads through a null pointer. -/
def Output (exp : ℚ → ℚ) (image : Size) (o : Outputs) (face_thresh : ℚ) : Option (List FaceInfo) := do
  let p_bboxes ← GenAllPriorboxs o.mbox_num image.cols image.rows
  let b_bboxes := DecodeBBoxes exp o.loc_data p_bboxes
  let indices ← ApplyNMSFast o.mbox_num b_bboxes o.class1_confs conf_thresh nms_thresh top_k []
  pure (results image o.class1_confs b_bboxes face_thresh indices)

/-- What `OutputTrans` makes of the numbers, for the frame `srcImg`. -/
def Run (exp : ℚ → ℚ) (srcImg midImg : Size) (s32ReWidth s32ReHeight : Nat) (outputs : Outputs) :
    Option (List FaceRectInfo) := do
  let faceinfos ← Output exp midImg outputs fThreshold
  pure (OutputTrans srcImg s32ReWidth s32ReHeight faceinfos)

/-- As `FaceFeatureExt` calls it, once the frame has been prepared. -/
def foundFaces (exp : ℚ → ℚ) (srcImg : Size) (p : Prepared) (outputs : Outputs) : Option (List FaceRectInfo) :=
  Run exp srcImg p.dstImg (if p.bResize then 0 else p.s32Width) (if p.bResize then 0 else p.s32Height) outputs

/-- A face that can be cut out of the image. -/
structure Usable (image : Size) (face : FaceRectInfo) : Prop where
  width : 0 < face.bbox.width
  height : 0 < face.bbox.height
  inside : face.bbox.Inside image
  crop : ∀ scale, (restore image scale face).isSome = true

/-- A box that ends a pixel or more before it begins, in one direction at least, and is not
thinner than a pixel in the other. -/
def OffBorder (image : Size) (b : BBox) : Prop :=
  (b.xmax - b.xmin) * image.cols ≤ -1 ∧ ¬|(b.ymax - b.ymin) * image.rows| < 1 ∨
    (b.ymax - b.ymin) * image.rows ≤ -1 ∧ ¬|(b.xmax - b.xmin) * image.cols| < 1

instance (image : Size) (b : BBox) : Decidable (OffBorder image b) := inferInstanceAs (Decidable (_ ∨ _))

theorem truncate_ne_zero {q : ℚ} : truncate q ≠ 0 ↔ ¬|q| < 1 := by
  have hsplit : truncate q ≠ 0 ↔ 0 < truncate q ∨ truncate q < 0 := by omega
  rw [hsplit, truncate_pos, truncate_neg, not_lt, le_abs']
  exact or_comm

/-- Such a box overlaps none. -/
theorem JaccardOverlap_of_inverted {b : BBox} (h : b.xmax < b.xmin ∨ b.ymax < b.ymin) (c : BBox) : JaccardOverlap b c = 0 := by
  unfold JaccardOverlap
  apply if_neg
  intro hinter
  unfold IntersectBBox at hinter
  split at hinter
  · exact absurd hinter.1 (by norm_num)
  · obtain ⟨hheight, hwidth⟩ := hinter
    have hxmax := min_le_left b.xmax c.xmax
    have hxmin := le_max_left b.xmin c.xmin
    have hymax := min_le_left b.ymax c.ymax
    have hymin := le_max_left b.ymin c.ymin
    simp only at hheight hwidth
    rcases h with hx | hy
    · linarith
    · linarith

theorem lt_of_scaled {lo hi : ℚ} {n : Nat} (h : (hi - lo) * n ≤ -1) : hi < lo := by
  by_contra hle
  have hprod : 0 ≤ (hi - lo) * n := mul_nonneg (sub_nonneg.mpr (not_lt.mp hle)) (Nat.cast_nonneg n)
  linarith

theorem inverted_of_offBorder {image : Size} {b : BBox} (h : OffBorder image b) : b.xmax < b.xmin ∨ b.ymax < b.ymin :=
  h.imp (fun hx => lt_of_scaled hx.1) (fun hy => lt_of_scaled hy.1)

theorem faceItem_unscaled (srcImg image : Size) (score : ℚ) (b : BBox) :
    faceItem srcImg 0 0 (faceInfo image score b) =
      if |(b.xmax - b.xmin) * image.cols| < 1 ∨ |(b.ymax - b.ymin) * image.rows| < 1 then none
      else some ⟨⟨truncate (b.xmin * image.cols), truncate (b.ymin * image.rows), truncate ((b.xmax - b.xmin) * image.cols),
        truncate ((b.ymax - b.ymin) * image.rows)⟩, score⟩ := by
  unfold faceItem faceInfo
  simp only [← sub_mul]
  have hzero : ∀ q : ℚ, truncate q = 0 ↔ |q| < 1 := fun q => not_iff_not.mp truncate_ne_zero
  simp only [hzero]
  rfl

theorem DecodeBBox_bounds (exp : ℚ → ℚ) (t_bboxes : Nat → ℚ) (idx : Nat) (p : BBox) :
    0 ≤ (DecodeBBox exp t_bboxes idx p).xmin ∧ 0 ≤ (DecodeBBox exp t_bboxes idx p).ymin ∧
      (DecodeBBox exp t_bboxes idx p).xmax ≤ 1 ∧ (DecodeBBox exp t_bboxes idx p).ymax ≤ 1 := by
  have hlow : ∀ q : ℚ, 0 ≤ if q < 0 then 0 else q := by
    intro q
    split
    · exact le_refl 0
    · rename_i h
      exact not_lt.mp h
  have hhigh : ∀ q : ℚ, (if q > 1 then 1 else q) ≤ 1 := by
    intro q
    split
    · exact le_refl 1
    · rename_i h
      exact not_lt.mp h
  exact ⟨hlow _, hlow _, hhigh _, hhigh _⟩

theorem truncate_add_le {lo hi : ℚ} {n : Nat} (hlo : 0 ≤ lo) (hhi : hi ≤ 1) (hle : 1 ≤ (hi - lo) * n) :
    truncate (lo * n) + truncate ((hi - lo) * n) ≤ n := by
  have hstart : 0 ≤ lo * n := mul_nonneg hlo (Nat.cast_nonneg n)
  rw [truncate_of_nonneg hstart, truncate_of_nonneg (zero_le_one.trans hle)]
  have hsum : lo * n + (hi - lo) * n ≤ n := by
    rw [← add_mul, add_sub_cancel]
    exact mul_le_of_le_one_left (Nat.cast_nonneg n) hhi
  have hfloor : ((⌊lo * n⌋ + ⌊(hi - lo) * n⌋ : ℤ) : ℚ) ≤ n := by
    rw [Int.cast_add]
    exact (add_le_add (Int.floor_le _) (Int.floor_le _)).trans hsum
  exact_mod_cast hfloor

/-- A face is usable if it does not come from a box off a border. -/
theorem usable_iff {srcImg image : Size} {score : ℚ} {b : BBox} {face : FaceRectInfo}
    (hb : 0 ≤ b.xmin ∧ 0 ≤ b.ymin ∧ b.xmax ≤ 1 ∧ b.ymax ≤ 1)
    (hface : faceItem srcImg 0 0 (faceInfo image score b) = some face) :
    Usable image face ↔ ¬OffBorder image b := by
  rw [faceItem_unscaled, Option.ite_none_left_eq_some, not_or] at hface
  obtain ⟨⟨hwide, hhigh⟩, heq⟩ := hface
  obtain rfl := Option.some.inj heq
  constructor
  · intro h hoff
    rcases hoff with ⟨hx, -⟩ | ⟨hy, -⟩
    · exact absurd h.width (truncate_neg.mpr hx).not_gt
    · exact absurd h.height (truncate_neg.mpr hy).not_gt
  · intro hoff
    obtain ⟨hnotx, hnoty⟩ := not_or.mp hoff
    have hx : 1 ≤ (b.xmax - b.xmin) * image.cols := by
      rcases le_abs'.mp (not_lt.mp hwide) with hneg | hpos
      · exact absurd ⟨hneg, hhigh⟩ hnotx
      · exact hpos
    have hy : 1 ≤ (b.ymax - b.ymin) * image.rows := by
      rcases le_abs'.mp (not_lt.mp hhigh) with hneg | hpos
      · exact absurd ⟨hneg, hwide⟩ hnoty
      · exact hpos
    obtain ⟨hxmin, hymin, hxmax, hymax⟩ := hb
    have hwidth := truncate_pos.mpr hx
    have hheight := truncate_pos.mpr hy
    have hinside : FaceRect.Inside ⟨truncate (b.xmin * image.cols), truncate (b.ymin * image.rows),
        truncate ((b.xmax - b.xmin) * image.cols), truncate ((b.ymax - b.ymin) * image.rows)⟩ image :=
      ⟨truncate_nonneg (mul_nonneg hxmin (Nat.cast_nonneg _)), hwidth.le, truncate_add_le hxmin hxmax hx,
        truncate_nonneg (mul_nonneg hymin (Nat.cast_nonneg _)), hheight.le, truncate_add_le hymin hymax hy⟩
    refine ⟨hwidth, hheight, hinside, fun scale => ?_⟩
    rw [restore, if_pos hinside]
    rfl

/-- The best candidates of the network. -/
def best (o : Outputs) : List Nat := (ranked o.mbox_num o.class1_confs conf_thresh).take top_k.toNat

/-- `indices` -/
def foundIndices (exp : ℚ → ℚ) (o : Outputs) (p_bboxes : List BBox) : List Nat :=
  Greedy.select (Apart (DecodeBBoxes exp o.loc_data p_bboxes) nms_thresh) []
    (best o ++ List.replicate (top_k.toNat - (candidates o.mbox_num o.class1_confs conf_thresh).length) 0)

theorem length_foundIndices_le (exp : ℚ → ℚ) (o : Outputs) (p_bboxes : List BBox) :
    ((foundIndices exp o p_bboxes).length : ℤ) ≤ top_k := by
  have hsub : (foundIndices exp o p_bboxes).length ≤ _ := (Greedy.select_sublist _ _ _).length_le
  rw [List.length_append, List.length_replicate, best, List.length_take, length_ranked] at hsub
  have htop : (top_k.toNat : ℤ) = top_k := rfl
  omega

theorem Output_eq {image : Size} {o : Outputs} {p_bboxes : List BBox}
    (hp : GenAllPriorboxs o.mbox_num image.cols image.rows = some p_bboxes) (exp : ℚ → ℚ) (face_thresh : ℚ) :
    Output exp image o face_thresh =
      some (results image o.class1_confs (DecodeBBoxes exp o.loc_data p_bboxes) face_thresh (foundIndices exp o p_bboxes)) := by
  have hnms := @ApplyNMSFast_eq o.mbox_num (DecodeBBoxes exp o.loc_data p_bboxes) o.class1_confs conf_thresh nms_thresh top_k
    (by decide) []
  unfold Output
  rw [hp, Option.bind_eq_bind, Option.bind_some]
  simp only [hnms, List.nil_append]
  rfl

/-- No more indices are found than are used. -/
theorem mem_results {image : Size} {class1_confs : Nat → ℚ} {b_bboxes : Nat → BBox} {face_thresh : ℚ} {indices : List Nat}
    (hlen : (indices.length : ℤ) ≤ top_k) (info : FaceInfo) :
    info ∈ results image class1_confs b_bboxes face_thresh indices ↔
      ∃ idx ∈ indices, face_thresh ≤ class1_confs idx ∧ faceInfo image (class1_confs idx) (b_bboxes idx) = info := by
  unfold results
  simp only [if_neg hlen.not_gt]
  rw [List.take_of_length_le (by rw [List.length_mergeSort, List.length_map])]
  simp only [List.mem_map, List.mem_filter, List.mem_mergeSort, Bool.not_eq_true', decide_eq_false_iff_not, not_lt]
  constructor
  · intro h
    obtain ⟨pair, ⟨⟨idx, hidx, rfl⟩, hscore⟩, rfl⟩ := h
    exact ⟨idx, hidx, hscore, rfl⟩
  · intro h
    obtain ⟨idx, hidx, hscore, rfl⟩ := h
    exact ⟨_, ⟨⟨idx, hidx, rfl⟩, hscore⟩, rfl⟩

/-- The index behind the candidates is one of them, if its score is high enough. -/
theorem mem_best_of_found {exp : ℚ → ℚ} {o : Outputs} {p_bboxes : List BBox} (hmbox : 0 < o.mbox_num) {idx : Nat}
    (hidx : idx ∈ foundIndices exp o p_bboxes) (hscore : fThreshold ≤ o.class1_confs idx) : idx ∈ best o := by
  rcases List.mem_append.mp ((Greedy.select_sublist _ _ _).subset hidx) with hbest | hpad
  · exact hbest
  · obtain ⟨hfew, rfl⟩ := List.mem_replicate.mp hpad
    have hthresh : conf_thresh < fThreshold := by decide +kernel
    have hranked : 0 ∈ ranked o.mbox_num o.class1_confs conf_thresh := mem_ranked.mpr ⟨hmbox, hthresh.trans_le hscore⟩
    rw [best, List.take_of_length_le]
    · exact hranked
    · rw [length_ranked]
      omega

/-- A box that overlaps none is found. -/
theorem found_of_inverted {exp : ℚ → ℚ} {o : Outputs} {p_bboxes : List BBox} {idx : Nat} (hidx : idx ∈ best o)
    (hinv : (DecodeBBoxes exp o.loc_data p_bboxes idx).xmax < (DecodeBBoxes exp o.loc_data p_bboxes idx).xmin ∨
      (DecodeBBoxes exp o.loc_data p_bboxes idx).ymax < (DecodeBBoxes exp o.loc_data p_bboxes idx).ymin) :
    idx ∈ foundIndices exp o p_bboxes := by
  refine Greedy.mem_select _ (fun kept_idx => ?_) _ (List.mem_append_left _ hidx)
  rw [Apart, JaccardOverlap_of_inverted hinv]
  decide +kernel

theorem PreprocMat_not_resized {srcImg : Size} {p : Prepared} (hpre : PreprocMat srcImg = some p) (hresize : ¬p.bResize = true) :
    srcImg = ⟨net_width, net_height⟩ ∧ p = ⟨false, net_width, net_height, srcImg⟩ := by
  unfold PreprocMat at hpre
  split at hpre
  · obtain ⟨dsize, -, hpre⟩ := Option.bind_eq_some_iff.mp hpre
    obtain ⟨dstImg, -, hpre⟩ := Option.bind_eq_some_iff.mp hpre
    obtain rfl := Option.some.inj hpre
    exact absurd rfl hresize
  · rename_i hsize
    refine ⟨?_, (Option.some.inj hpre).symm⟩
    rw [Size.mk.injEq]
    omega

/-- A prepared frame has the size of the network, and its boxes are not scaled. -/
theorem foundFaces_eq {srcImg : Size} {p : Prepared} (hpre : PreprocMat srcImg = some p) (exp : ℚ → ℚ) (outputs : Outputs) :
    p.dstImg = ⟨net_width, net_height⟩ ∧
      foundFaces exp srcImg p outputs =
        (Output exp ⟨net_width, net_height⟩ outputs fThreshold).map (OutputTrans srcImg 0 0) := by
  unfold foundFaces Run
  by_cases hresize : p.bResize = true
  · obtain ⟨-, -, -, -, -, -, hdst⟩ := PreprocMat_resized hpre hresize
    refine ⟨hdst, ?_⟩
    rw [if_pos hresize, if_pos hresize, hdst]
    cases Output exp ⟨net_width, net_height⟩ outputs fThreshold with
    | none => rfl
    | some faceinfos => rfl
  · obtain ⟨rfl, rfl⟩ := PreprocMat_not_resized hpre hresize
    refine ⟨rfl, ?_⟩
    rw [if_neg hresize, if_neg hresize]
    cases Output exp ⟨net_width, net_height⟩ outputs fThreshold with
    | none => rfl
    | some faceinfos => exact congrArg some (OutputTrans_net_size faceinfos)

theorem sum_p_bboxs_dim : ((pyramid net_width net_height).map Priors.p_bboxs_dim).sum = 7469 * 4 := by decide +kernel

/-- The priors of a frame are those of the network. -/
theorem mbox_num_pos {mbox_num : Nat} {p_bboxes : List BBox}
    (h : GenAllPriorboxs mbox_num net_width net_height = some p_bboxes) : 0 < mbox_num := by
  unfold GenAllPriorboxs at h
  rw [Option.ite_none_left_eq_some, sum_p_bboxs_dim] at h
  omega

/-- What is found at one of the best candidates, and what is not. -/
theorem mem_foundFaces_iff {srcImg : Size} {p : Prepared} (hpre : PreprocMat srcImg = some p) (exp : ℚ → ℚ)
    {outputs : Outputs} {p_bboxes : List BBox}
    (hp : GenAllPriorboxs outputs.mbox_num p.dstImg.cols p.dstImg.rows = some p_bboxes) :
    ∃ vecFaceRect, foundFaces exp srcImg p outputs = some vecFaceRect ∧ ∀ face, face ∈ vecFaceRect ↔
      ∃ idx ∈ foundIndices exp outputs p_bboxes, fThreshold ≤ outputs.class1_confs idx ∧
        faceItem srcImg 0 0 (faceInfo p.dstImg (outputs.class1_confs idx)
          (DecodeBBoxes exp outputs.loc_data p_bboxes idx)) = some face := by
  obtain ⟨hdst, heq⟩ := foundFaces_eq hpre exp outputs
  rw [hdst] at hp ⊢
  have hout := @Output_eq ⟨net_width, net_height⟩ outputs p_bboxes hp exp fThreshold
  refine ⟨_, by rw [heq, hout, Option.map_some], fun face => ?_⟩
  rw [OutputTrans, List.mem_filterMap]
  simp only [mem_results (length_foundIndices_le exp outputs p_bboxes)]
  constructor
  · intro h
    obtain ⟨info, ⟨idx, hidx, hscore, rfl⟩, hitem⟩ := h
    exact ⟨idx, hidx, hscore, hitem⟩
  · intro h
    obtain ⟨idx, hidx, hscore, hitem⟩ := h
    exact ⟨_, ⟨idx, hidx, hscore, rfl⟩, hitem⟩

theorem faceItem_of_offBorder {image : Size} {b : BBox} (hoff : OffBorder image b) (srcImg : Size) (score : ℚ) :
    ∃ face, faceItem srcImg 0 0 (faceInfo image score b) = some face := by
  rw [faceItem_unscaled, if_neg]
  · exact ⟨_, rfl⟩
  · have hthick : ∀ q : ℚ, q ≤ -1 → ¬|q| < 1 := fun q hq => not_lt.mpr (le_abs'.mpr (.inl hq))
    rcases hoff with ⟨hx, hy⟩ | ⟨hy, hx⟩
    · exact not_or.mpr ⟨hthick _ hx, hy⟩
    · exact not_or.mpr ⟨hx, hthick _ hy⟩

/-- Every face is usable unless one of the best candidates is off a border. -/
theorem foundFaces_usable_iff (exp : ℚ → ℚ) (srcImg : Size) (p : Prepared) (outputs : Outputs)
    (hpre : PreprocMat srcImg = some p) :
    (∀ vecFaceRect, foundFaces exp srcImg p outputs = some vecFaceRect → ∀ face ∈ vecFaceRect, Usable p.dstImg face) ↔
      ∀ p_bboxes, GenAllPriorboxs outputs.mbox_num p.dstImg.cols p.dstImg.rows = some p_bboxes →
        ∀ idx ∈ best outputs, fThreshold ≤ outputs.class1_confs idx →
          ¬OffBorder p.dstImg (DecodeBBoxes exp outputs.loc_data p_bboxes idx) := by
  constructor
  · intro h p_bboxes hp idx hidx hscore hoff
    obtain ⟨vecFaceRect, hrun, hmem⟩ := mem_foundFaces_iff hpre exp hp
    obtain ⟨face, hface⟩ := faceItem_of_offBorder hoff srcImg (outputs.class1_confs idx)
    have hfound := found_of_inverted hidx (inverted_of_offBorder hoff)
    have husable := h vecFaceRect hrun face ((hmem face).mpr ⟨idx, hfound, hscore, hface⟩)
    exact (usable_iff (DecodeBBox_bounds exp _ _ _) hface).mp husable hoff
  · intro h vecFaceRect hrun face hface
    cases hp : GenAllPriorboxs outputs.mbox_num p.dstImg.cols p.dstImg.rows with
    | none =>
      obtain ⟨hdst, heq⟩ := foundFaces_eq hpre exp outputs
      rw [hdst] at hp
      have hnone : Output exp ⟨net_width, net_height⟩ outputs fThreshold = none := by
        unfold Output
        rw [hp]
        rfl
      rw [heq, hnone] at hrun
      cases hrun
    | some p_bboxes =>
      obtain ⟨_, hrun', hmem⟩ := mem_foundFaces_iff hpre exp hp
      obtain rfl := Option.some.inj (hrun.symm.trans hrun')
      obtain ⟨idx, hidx, hscore, hitem⟩ := (hmem face).mp hface
      have hmbox : 0 < outputs.mbox_num := by
        rw [(foundFaces_eq hpre exp outputs).1] at hp
        exact mbox_num_pos hp
      have hbest := mem_best_of_found hmbox hidx hscore
      exact (usable_iff (DecodeBBox_bounds exp _ _ _) hitem).mpr (h p_bboxes hp idx hbest hscore)

/-- A candidate that is better than all others is found. -/
theorem found_of_first {exp : ℚ → ℚ} {o : Outputs} {p_bboxes : List BBox} {idx : Nat} {rest : List Nat}
    (hbest : best o = idx :: rest) : idx ∈ foundIndices exp o p_bboxes := by
  rw [foundIndices, hbest, List.cons_append, Greedy.select, if_pos]
  · exact List.mem_cons_self
  · intro kept_idx hkept
    exact absurd hkept List.not_mem_nil

/-- A score that one box alone has leaves no other candidate. -/
theorem best_of_only {o : Outputs} {k : Nat} (hk : k < o.mbox_num) (hconf : o.class1_confs k > conf_thresh)
    (honly : ∀ idx, o.class1_confs idx > conf_thresh → idx = k) : best o = [k] := by
  have hsubset : ranked o.mbox_num o.class1_confs conf_thresh ⊆ [k] := fun idx hidx =>
    List.mem_singleton.mpr (honly idx (mem_ranked.mp hidx).2)
  have hfew := (List.subperm_of_subset (nodup_ranked o.mbox_num o.class1_confs conf_thresh) hsubset).length_le
  obtain ⟨idx, hranked⟩ := List.length_eq_one_iff.mp
    (le_antisymm hfew (List.length_pos_of_mem (mem_ranked.mpr ⟨hk, hconf⟩)))
  have hidx : idx = k := List.mem_singleton.mp (hsubset (hranked ▸ List.mem_cons_self))
  rw [best, hranked, hidx]
  rfl

/-- The network is sure of the box `k` and leaves all boxes at their priors. -/
theorem best_at_prior (k : Nat) (hk : k < 7469) :
    best ⟨fun _ => 0, fun i => if i = k * 2 + 1 then 1 else 0, 14938⟩ = [k] := by
  let o : Outputs := ⟨fun _ => 0, fun i => if i = k * 2 + 1 then 1 else 0, 14938⟩
  have hnum : o.mbox_num = 14938 / 2 := rfl
  have hconf : ∀ idx, o.class1_confs idx = if idx * 2 + 1 = k * 2 + 1 then 1 else 0 := fun _ => rfl
  refine best_of_only (o := o) (by omega) ?_ fun idx hidx => ?_
  · rw [hconf, if_pos rfl]
    decide +kernel
  · rw [hconf] at hidx
    split at hidx
    · omega
    · exact absurd hidx (by decide +kernel)

/-- The network has as many boxes as there are priors. -/
theorem GenAllPriorboxs_net :
    GenAllPriorboxs (14938 / 2) net_width net_height = some ((pyramid net_width net_height).flatMap Priors.prior_data) := by
  rw [GenAllPriorboxs, if_neg]
  rw [sum_p_bboxs_dim]
  decide

/-- The only face is a box of the second level of the pyramid. -/
theorem foundFaces_usable_second_level : PreprocMat ⟨1920, 1080⟩ = some ⟨true, 800, 450, ⟨800, 464⟩⟩ ∧
    ∃ vecFaceRect, foundFaces (fun _ => 1) ⟨1920, 1080⟩ ⟨true, 800, 450, ⟨800, 464⟩⟩
        ⟨fun _ => 0, fun i => if i = 2225 then 1 else 0, 14938⟩ = some vecFaceRect ∧
      ⟨⟨16, 16, 128, 128⟩, 1⟩ ∈ vecFaceRect ∧ ∀ face ∈ vecFaceRect, Usable ⟨800, 464⟩ face := by
  have hpre : PreprocMat ⟨1920, 1080⟩ = some ⟨true, 800, 450, ⟨800, 464⟩⟩ := by decide
  let o : Outputs := ⟨fun _ => 0, fun i => if i = 2225 then 1 else 0, 14938⟩
  obtain ⟨p_bboxes, hp, hprior⟩ : ∃ p_bboxes, GenAllPriorboxs o.mbox_num 800 464 = some p_bboxes ∧
      p_bboxes.getD 1112 ⟨0, 0, 0, 0⟩ = ⟨1 / 50, 1 / 29, 9 / 50, 9 / 29⟩ :=
    ⟨_, GenAllPriorboxs_net, by decide +kernel⟩
  have hbox : DecodeBBoxes (fun _ => 1) o.loc_data p_bboxes 1112 = ⟨1 / 50, 1 / 29, 9 / 50, 9 / 29⟩ := by
    rw [DecodeBBoxes, hprior]
    decide +kernel
  have hbest : best o = [1112] := best_at_prior 1112 (by decide)
  obtain ⟨vecFaceRect, hrun, hmem⟩ := mem_foundFaces_iff hpre (fun _ => 1) hp
  refine ⟨hpre, vecFaceRect, hrun, (hmem _).mpr ⟨1112, found_of_first hbest, by decide +kernel, ?_⟩, ?_⟩
  · rw [hbox]
    decide +kernel
  · refine (foundFaces_usable_iff (fun _ => 1) ⟨1920, 1080⟩ ⟨true, 800, 450, ⟨800, 464⟩⟩ o hpre).mpr
      (fun p_bboxes' hp' idx hidx _ => ?_) vecFaceRect hrun
    obtain rfl := Option.some.inj (hp.symm.trans hp')
    rw [hbest] at hidx
    obtain rfl := List.mem_singleton.mp hidx
    rw [hbox]
    decide +kernel

/-- The only face is the first box of the network, whose prior is a point above and left of
the image. -/
theorem not_foundFaces_usable_first : PreprocMat ⟨1920, 1080⟩ = some ⟨true, 800, 450, ⟨800, 464⟩⟩ ∧
    ∃ vecFaceRect, foundFaces (fun _ => 1) ⟨1920, 1080⟩ ⟨true, 800, 450, ⟨800, 464⟩⟩
        ⟨fun _ => 0, fun i => if i = 1 then 1 else 0, 14938⟩ = some vecFaceRect ∧
      ⟨⟨0, 0, -15, -15⟩, 1⟩ ∈ vecFaceRect ∧ ¬Usable ⟨800, 464⟩ ⟨⟨0, 0, -15, -15⟩, 1⟩ := by
  have hpre : PreprocMat ⟨1920, 1080⟩ = some ⟨true, 800, 450, ⟨800, 464⟩⟩ := by decide
  let o : Outputs := ⟨fun _ => 0, fun i => if i = 1 then 1 else 0, 14938⟩
  obtain ⟨p_bboxes, hp, hfirst⟩ : ∃ p_bboxes, GenAllPriorboxs o.mbox_num 800 464 = some p_bboxes ∧
      p_bboxes.getD 0 ⟨0, 0, 0, 0⟩ = ⟨-31 / 1600, -31 / 928, -31 / 1600, -31 / 928⟩ :=
    ⟨_, GenAllPriorboxs_net, by decide +kernel⟩
  have hbox : DecodeBBoxes (fun _ => 1) o.loc_data p_bboxes 0 = ⟨0, 0, -31 / 1600, -31 / 928⟩ := by
    rw [DecodeBBoxes, hfirst]
    decide +kernel
  have hbest : best o = [0] := best_at_prior 0 (by decide)
  have hfound : 0 ∈ foundIndices (fun _ => 1) o p_bboxes := found_of_first hbest
  obtain ⟨vecFaceRect, hrun, hmem⟩ := mem_foundFaces_iff hpre (fun _ => 1) hp
  refine ⟨hpre, vecFaceRect, hrun, (hmem _).mpr ⟨0, hfound, by decide +kernel, ?_⟩, fun h => ?_⟩
  · rw [hbox]
    decide +kernel
  · exact absurd h.width (by decide)

end Perception.Alg.Face
