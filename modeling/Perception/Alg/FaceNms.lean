import Mathlib.Algebra.Order.Field.Rat
import Mathlib.Data.List.GetD
import Perception.Lib.Greedy
import Perception.Lib.Ranking

/-!
# Suppression of overlapping faces

`ApplyNMSFast` over exact numbers: the boxes whose score is high enough, best first, and of
these the ones that overlap none taken before. The list of `GetMaxScoreIndex` is as long as
`top_k` says, however few boxes there are.
-/
namespace Perception.Alg.Face

set_option autoImplicit false

open Perception.Lib

/-- Four floats of `b_bboxes`. -/
structure BBox where
  xmin : ℚ
  ymin : ℚ
  xmax : ℚ
  ymax : ℚ
  deriving DecidableEq

def SortScorePairDescend (pair1 pair2 : Nat × ℚ) : Bool := decide (pair1.2 > pair2.2)

/-- A negative `top_k` is too long a list for `resize`, which throws. The pairs behind the
last box are those that `resize` makes. -/
def GetMaxScoreIndex (mbox_num : Nat) (scores : Nat → ℚ) (thresh : ℚ) (top_k : ℤ) : Option (List (Nat × ℚ)) :=
  let index_score_tmp := ((List.range mbox_num).filter fun i => scores i > thresh).map fun i => (i, scores i)
  let sorted := index_score_tmp.mergeSort fun pair1 pair2 => !SortScorePairDescend pair2 pair1
  if top_k < 0 then none else some ((List.range top_k.toNat).map fun i => sorted.getD i (0, 0))

def IntersectBBox (bbox0 bbox1 : BBox) : BBox :=
  if bbox1.xmin > bbox0.xmax ∨ bbox1.xmax < bbox0.xmin ∨ bbox1.ymax < bbox0.ymin ∨ bbox0.ymax < bbox1.ymin then
    ⟨0, 0, 0, 0⟩
  else
    ⟨max bbox0.xmin bbox1.xmin, max bbox0.ymin bbox1.ymin, min bbox0.xmax bbox1.xmax, min bbox0.ymax bbox1.ymax⟩

def BBoxSize (bbox : BBox) : ℚ :=
  if bbox.xmin > bbox.xmax ∨ bbox.ymin > bbox.ymax then 0
  else (bbox.xmax - bbox.xmin) * (bbox.ymax - bbox.ymin)

def JaccardOverlap (bbox0 bbox1 : BBox) : ℚ :=
  let bbox_inter := IntersectBBox bbox0 bbox1
  let bbox_inter_w := bbox_inter.xmax - bbox_inter.xmin
  let bbox_inter_h := bbox_inter.ymax - bbox_inter.ymin
  if bbox_inter_h > 0 ∧ bbox_inter_w > 0 then
    let inter_size := bbox_inter_w * bbox_inter_h
    inter_size / (BBoxSize bbox0 + BBoxSize bbox1 - inter_size)
  else 0

/-- The boxes `idx` and `kept_idx` may both be kept. -/
def Apart (b_bboxes : Nat → BBox) (nms_thresh : ℚ) (idx kept_idx : Nat) : Prop :=
  JaccardOverlap (b_bboxes idx) (b_bboxes kept_idx) ≤ nms_thresh

instance (b_bboxes : Nat → BBox) (nms_thresh : ℚ) : DecidableRel (Apart b_bboxes nms_thresh) :=
  fun _ _ => inferInstanceAs (Decidable (_ ≤ _))

/-- What `indices` becomes; none if `GetMaxScoreIndex` throws. -/
def ApplyNMSFast (mbox_num : Nat) (b_bboxes : Nat → BBox) (confs : Nat → ℚ) (conf_thresh nms_thresh : ℚ) (top_k : ℤ)
    (indices : List Nat) : Option (List Nat) := do
  let idx_scores ← GetMaxScoreIndex mbox_num confs conf_thresh top_k
  pure (idx_scores.foldl (fun indices pair => Greedy.step (Apart b_bboxes nms_thresh) indices pair.1) indices)

/-- The boxes with a score above the threshold. -/
def candidates (mbox_num : Nat) (confs : Nat → ℚ) (conf_thresh : ℚ) : List Nat :=
  (List.range mbox_num).filter fun i => confs i > conf_thresh

/-- The greedy selection among the `top_k` best candidates. -/
structure IsGreedyTopK (mbox_num : Nat) (b_bboxes : Nat → BBox) (confs : Nat → ℚ) (conf_thresh nms_thresh : ℚ)
    (top_k : ℤ) (indices : List Nat) : Prop where
  nodup : indices.Nodup
  exceeds : ∀ idx ∈ indices, idx < mbox_num ∧ confs idx > conf_thresh
  greedy : ∃ ranking, Ranking confs (candidates mbox_num confs conf_thresh) ranking ∧
    indices = Greedy.select (Apart b_bboxes nms_thresh) [] (ranking.take top_k.toNat)

/-- The candidates as the code sorts them. -/
def ranked (mbox_num : Nat) (confs : Nat → ℚ) (conf_thresh : ℚ) : List Nat :=
  rank confs (candidates mbox_num confs conf_thresh)

theorem ranking_ranked (mbox_num : Nat) (confs : Nat → ℚ) (conf_thresh : ℚ) :
    Ranking confs (candidates mbox_num confs conf_thresh) (ranked mbox_num confs conf_thresh) :=
  Ranking.rank confs (List.pairwise_lt_range.filter _)

theorem mem_ranked {mbox_num : Nat} {confs : Nat → ℚ} {conf_thresh : ℚ} {idx : Nat} :
    idx ∈ ranked mbox_num confs conf_thresh ↔ idx < mbox_num ∧ confs idx > conf_thresh := by
  rw [(ranking_ranked mbox_num confs conf_thresh).perm.mem_iff, candidates, List.mem_filter, List.mem_range,
    decide_eq_true_eq]

theorem nodup_ranked (mbox_num : Nat) (confs : Nat → ℚ) (conf_thresh : ℚ) : (ranked mbox_num confs conf_thresh).Nodup :=
  (ranking_ranked mbox_num confs conf_thresh).perm.nodup_iff.mpr (List.nodup_range.filter _)

theorem length_ranked (mbox_num : Nat) (confs : Nat → ℚ) (conf_thresh : ℚ) :
    (ranked mbox_num confs conf_thresh).length = (candidates mbox_num confs conf_thresh).length :=
  (ranking_ranked mbox_num confs conf_thresh).perm.length_eq

/-- A list read at the indices below `n`, with a default behind its end. -/
theorem map_getD_range {α : Type*} (l : List α) (d : α) (n : Nat) :
    ((List.range n).map fun i => l.getD i d) = l.take n ++ List.replicate (n - l.length) d := by
  apply List.ext_getElem
  · simp only [List.length_map, List.length_range, List.length_append, List.length_take, List.length_replicate]
    omega
  · intro i hi _
    rw [List.getElem_map, List.getElem_range, List.getElem_append]
    split
    · rename_i htake
      rw [List.length_take] at htake
      rw [List.getElem_take, List.getD_eq_getElem]
    · rename_i hbehind
      rw [List.length_map, List.length_range] at hi
      rw [List.length_take] at hbehind
      rw [List.getElem_replicate, List.getD_eq_default]
      omega

/-- The indices of `idx_scores`: behind the candidates comes box 0. -/
theorem GetMaxScoreIndex_eq {mbox_num : Nat} {scores : Nat → ℚ} {thresh : ℚ} {top_k : ℤ} (h : 0 ≤ top_k) :
    (GetMaxScoreIndex mbox_num scores thresh top_k).map (List.map Prod.fst) =
      some ((ranked mbox_num scores thresh).take top_k.toNat ++
        List.replicate (top_k.toNat - (candidates mbox_num scores thresh).length) 0) := by
  have hsorted : (ranked mbox_num scores thresh).map (fun i => (i, scores i)) =
      ((candidates mbox_num scores thresh).map fun i => (i, scores i)).mergeSort
        fun pair1 pair2 => !SortScorePairDescend pair2 pair1 :=
    List.map_mergeSort fun _ _ _ _ => rfl
  unfold GetMaxScoreIndex
  rw [if_neg h.not_gt]
  change Option.map _ (some (List.map (fun i => List.getD (List.mergeSort
    ((candidates mbox_num scores thresh).map fun i => (i, scores i)) _) i (0, 0)) _)) = _
  rw [← hsorted, map_getD_range, Option.map_some, List.map_append, List.map_take, List.map_map, List.map_replicate,
    List.length_map, length_ranked]
  congr 3
  exact List.map_id _

/-- The loop takes the selection among the best candidates, and then what the pairs behind
them make of it. -/
theorem ApplyNMSFast_eq {mbox_num : Nat} {b_bboxes : Nat → BBox} {confs : Nat → ℚ} {conf_thresh nms_thresh : ℚ} {top_k : ℤ}
    (h : 0 ≤ top_k) (indices : List Nat) :
    ApplyNMSFast mbox_num b_bboxes confs conf_thresh nms_thresh top_k indices =
      some (indices ++ Greedy.select (Apart b_bboxes nms_thresh) indices
        ((ranked mbox_num confs conf_thresh).take top_k.toNat ++
          List.replicate (top_k.toNat - (candidates mbox_num confs conf_thresh).length) 0)) := by
  obtain ⟨idx_scores, hscores, hfst⟩ := Option.map_eq_some_iff.mp (@GetMaxScoreIndex_eq mbox_num confs conf_thresh top_k h)
  unfold ApplyNMSFast
  rw [hscores, ← hfst, ← Greedy.foldl_step, List.foldl_map]
  rfl

section

variable (mbox_num : Nat) (b_bboxes : Nat → BBox) (confs : Nat → ℚ) (conf_thresh nms_thresh : ℚ)

theorem IsGreedyTopK.of_ranked (top_k : ℤ) :
    IsGreedyTopK mbox_num b_bboxes confs conf_thresh nms_thresh top_k
      (Greedy.select (Apart b_bboxes nms_thresh) [] ((ranked mbox_num confs conf_thresh).take top_k.toNat)) where
  nodup := ((nodup_ranked _ _ _).sublist (List.take_sublist _ _)).sublist (Greedy.select_sublist _ _ _)
  exceeds _ hidx := mem_ranked.mp (List.mem_of_mem_take ((Greedy.select_sublist _ _ _).subset hidx))
  greedy := ⟨_, ranking_ranked _ _ _, rfl⟩

theorem isGreedyTopK_append_iff (top_k : ℤ) (more : List Nat) :
    IsGreedyTopK mbox_num b_bboxes confs conf_thresh nms_thresh top_k
        (Greedy.select (Apart b_bboxes nms_thresh) [] ((ranked mbox_num confs conf_thresh).take top_k.toNat) ++ more) ↔
      more = [] := by
  constructor
  · intro h
    obtain ⟨ranking, hranking, heq⟩ := h.greedy
    rw [hranking.unique (ranking_ranked _ _ _)] at heq
    exact List.append_right_eq_self.mp heq
  · intro hnil
    rw [hnil, List.append_nil]
    exact IsGreedyTopK.of_ranked mbox_num b_bboxes confs conf_thresh nms_thresh top_k

/-- The list is the greedy selection exactly when there are enough candidates for it, or
box 0 overlaps one of the boxes that are selected. -/
theorem ApplyNMSFast_isGreedyTopK_iff (top_k : ℤ) :
    (∀ indices, ApplyNMSFast mbox_num b_bboxes confs conf_thresh nms_thresh top_k [] = some indices →
        IsGreedyTopK mbox_num b_bboxes confs conf_thresh nms_thresh top_k indices) ↔
      top_k ≤ (candidates mbox_num confs conf_thresh).length ∨
        ∃ kept_idx ∈ Greedy.select (Apart b_bboxes nms_thresh) [] (ranked mbox_num confs conf_thresh),
          JaccardOverlap (b_bboxes 0) (b_bboxes kept_idx) > nms_thresh := by
  rcases lt_or_ge top_k 0 with hneg | hpos
  · have hthrows : ApplyNMSFast mbox_num b_bboxes confs conf_thresh nms_thresh top_k [] = none := by
      unfold ApplyNMSFast GetMaxScoreIndex
      rw [if_pos hneg]
      rfl
    rw [hthrows]
    refine iff_of_true (fun _ h => absurd h (Option.some_ne_none _).symm) (.inl ?_)
    omega
  · rw [ApplyNMSFast_eq hpos, List.nil_append, Greedy.select_append, List.nil_append]
    simp only [Option.some.injEq, forall_eq']
    rw [isGreedyTopK_append_iff, Greedy.select_replicate_eq_nil]
    have hlength : top_k.toNat - (candidates mbox_num confs conf_thresh).length = 0 ↔
        top_k ≤ (candidates mbox_num confs conf_thresh).length := by omega
    rw [hlength]
    apply or_congr_right'
    intro hfew
    have hall : (ranked mbox_num confs conf_thresh).take top_k.toNat = ranked mbox_num confs conf_thresh := by
      apply List.take_of_length_le
      rw [length_ranked]
      omega
    rw [hall]
    simp only [Apart, not_le, gt_iff_lt]

end

/-- No box is a face. Box 0 is found nevertheless, again and again if it is empty. -/
theorem not_isGreedyTopK_no_face :
    ApplyNMSFast 2 (fun _ => ⟨1 / 2, 1 / 2, 1 / 2, 1 / 2⟩) (fun _ => 0) (1 / 100) (15 / 100) 3 [] = some [0, 0, 0] ∧
      ¬IsGreedyTopK 2 (fun _ => ⟨1 / 2, 1 / 2, 1 / 2, 1 / 2⟩) (fun _ => 0) (1 / 100) (15 / 100) 3 [0, 0, 0] := by
  have hnone : candidates 2 (fun _ => 0) (1 / 100) = [] := by decide +kernel
  have hranked : ranked 2 (fun _ => 0) (1 / 100) = [] := by
    rw [ranked, hnone]
    exact List.mergeSort_nil
  refine ⟨?_, fun h => absurd h.nodup (by decide)⟩
  rw [ApplyNMSFast_eq (by decide), hranked, hnone]
  decide +kernel

end Perception.Alg.Face
