import Mathlib.Algebra.Order.Field.Rat
import Mathlib.Data.List.GetD
import Mathlib.Tactic.Linarith
import Mathlib.Tactic.Ring
import Perception.Lib.Elimination

/-!
# Suppression of overlapping detections

`do_nms_sort` over exact numbers. It does not sort: each detection in turn meets those behind
it, and of two of one class that overlap the one with the lower score is removed, by a score
of zero. The copies that `detbuf` holds have scores of their own; the assignment operators of
`box` and `detection` have no return statement, and what they copy is modelled.
-/
namespace Perception.Alg.Detect

set_option autoImplicit false

open Perception.Lib

structure box where
  x : ℚ
  y : ℚ
  w : ℚ
  h : ℚ
  deriving DecidableEq

structure detection where
  bbox : box
  sort_class : Nat
  prob : List ℚ
  deriving DecidableEq

def overlap (x1 w1 x2 w2 : ℚ) : ℚ :=
  let l1 := x1 - w1 / 2
  let l2 := x2 - w2 / 2
  let left := if l1 > l2 then l1 else l2
  let r1 := x1 + w1 / 2
  let r2 := x2 + w2 / 2
  let right := if r1 < r2 then r1 else r2
  right - left

def box_intersection (a b : box) : ℚ :=
  let w := overlap a.x a.w b.x b.w
  let h := overlap a.y a.h b.y b.h
  if w < 0 ∨ h < 0 then 0 else w * h

def box_union (a b : box) : ℚ := a.w * a.h + b.w * b.h - box_intersection a b

/-- A quotient of floats, whose divisor may be zero. -/
inductive Ratio
  | nan
  | infinity
  | value (q : ℚ)
  deriving DecidableEq

/-- Comparisons with a NaN are false. -/
def Ratio.exceeds : Ratio → ℚ → Bool
  | nan, _ => false
  | infinity, _ => true
  | value q, t => decide (q > t)

/-- The intersection is not negative. -/
def box_iou (a b : box) : Ratio :=
  if box_union a b = 0 then if box_intersection a b = 0 then .nan else .infinity
  else .value (box_intersection a b / box_union a b)

/-- The highest score and its class. -/
def maxProb (classes : Nat) (prob : List ℚ) : ℚ × Nat :=
  (List.range' 1 (classes - 1)).foldl
    (fun best j => if prob.getD j 0 > best.1 then (prob.getD j 0, j) else best) (prob.getD 0 0, 0)

def classify (classes : Nat) (d : detection) : detection := { d with sort_class := (maxProb classes d.prob).2 }

namespace detection

/-- `prob[sort_class]` -/
def score (d : detection) : ℚ := d.prob.getD d.sort_class 0

def remove (d : detection) : detection := { d with prob := d.prob.set d.sort_class 0 }

end detection

open detection

/-- The loop over the detections behind `d`: what becomes of `d` and of them. -/
def suppress (fIOUThresh : ℚ) (d : detection) : List detection → detection × List detection
  | [] => (d, [])
  | e :: es =>
    if d.sort_class = e.sort_class ∧ (box_iou d.bbox e.bbox).exceeds fIOUThresh = true then
      if e.score < d.score then ((suppress fIOUThresh d es).1, e.remove :: (suppress fIOUThresh d es).2)
      else (d.remove, e :: es)
    else ((suppress fIOUThresh d es).1, e :: (suppress fIOUThresh d es).2)

/-- The loop over `detbuf`: what it puts back into `dets`. The length of the list is fuel
enough. -/
def nmsLoop (fIOUThresh : ℚ) : Nat → List detection → List detection
  | 0, _ => []
  | _, [] => []
  | n + 1, d :: ds =>
    if d.score = 0 then nmsLoop fIOUThresh n ds
    else
      let r := suppress fIOUThresh d ds
      if 0 < r.1.score then r.1 :: nmsLoop fIOUThresh n r.2 else nmsLoop fIOUThresh n r.2

/-- The number returned, and `dets` afterwards. -/
def do_nms_sort (dets : List detection) (total classes : Nat) (fIOUThresh fDrawThresh : ℚ) : Nat × List detection :=
  let classified := (dets.take total).map (classify classes)
  let detbuf := ((dets.take total).filter fun d => (maxProb classes d.prob).1 > fDrawThresh).map (classify classes)
  let out := nmsLoop fIOUThresh detbuf.length detbuf
  (out.length, out ++ classified.drop out.length ++ dets.drop total)

theorem overlap_comm (x1 w1 x2 w2 : ℚ) : overlap x1 w1 x2 w2 = overlap x2 w2 x1 w1 := by
  simp only [overlap]
  split_ifs <;> linarith

theorem box_intersection_comm (a b : box) : box_intersection a b = box_intersection b a := by
  unfold box_intersection
  rw [overlap_comm a.x, overlap_comm a.y]

theorem box_iou_comm (a b : box) : box_iou a b = box_iou b a := by
  unfold box_iou box_union
  rw [box_intersection_comm a b, add_comm (a.w * a.h)]

theorem maxProb_foldl (prob : List ℚ) (js : List Nat) (best : ℚ × Nat) (hbest : best.1 = prob.getD best.2 0) :
    let r := js.foldl (fun best j => if prob.getD j 0 > best.1 then (prob.getD j 0, j) else best) best
    r.1 = prob.getD r.2 0 ∧ best.1 ≤ r.1 ∧ ∀ j ∈ js, prob.getD j 0 ≤ r.1 := by
  induction js generalizing best with
  | nil => exact ⟨hbest, le_refl _, fun j hj => absurd hj List.not_mem_nil⟩
  | cons j js ih =>
    by_cases hj : prob.getD j 0 > best.1
    · obtain ⟨heq, hle, hall⟩ := ih (prob.getD j 0, j) rfl
      simp only [List.foldl_cons, if_pos hj]
      refine ⟨heq, hj.le.trans hle, fun k hk => ?_⟩
      rcases List.mem_cons.mp hk with rfl | hk
      · exact hle
      · exact hall k hk
    · obtain ⟨heq, hle, hall⟩ := ih best hbest
      simp only [List.foldl_cons, if_neg hj]
      refine ⟨heq, hle, fun k hk => ?_⟩
      rcases List.mem_cons.mp hk with rfl | hk
      · exact (not_lt.mp hj).trans hle
      · exact hall k hk

/-- The score of the class that is chosen is the highest of all. -/
theorem score_classify (classes : Nat) (d : detection) :
    (classify classes d).score = (maxProb classes d.prob).1 ∧
      ∀ j < classes, d.prob.getD j 0 ≤ (classify classes d).score := by
  obtain ⟨heq, hle, hall⟩ := maxProb_foldl d.prob (List.range' 1 (classes - 1)) (d.prob.getD 0 0, 0) rfl
  refine ⟨heq.symm, fun j hj => ?_⟩
  have hscore : (classify classes d).score = (maxProb classes d.prob).1 := heq.symm
  rw [hscore]
  cases j with
  | zero => exact hle
  | succ j =>
    apply hall
    rw [List.mem_range'_1]
    omega

/-- Two detections of one class that overlap. -/
def conflict (fIOUThresh : ℚ) (d e : detection) : Bool :=
  decide (d.sort_class = e.sort_class) && (box_iou d.bbox e.bbox).exceeds fIOUThresh

def beats (e d : detection) : Bool := decide (d.score ≤ e.score)

/-- A detection as it stands in `detbuf` when it is still in or out. -/
def held (p : detection × Bool) : detection := if p.2 then p.1 else p.1.remove

variable {fIOUThresh : ℚ} {d : detection} {es : List (detection × Bool)}

theorem score_remove (d : detection) : d.remove.score = 0 := by
  unfold score remove
  by_cases hlt : d.sort_class < d.prob.length
  · simp [List.getD_eq_getElem?_getD, hlt]
  · apply List.getD_eq_default
    rw [List.length_set]
    exact Nat.le_of_not_lt hlt

theorem remove_remove (d : detection) : d.remove.remove = d.remove := by
  simp only [remove, List.set_set]

theorem held_frame (p : detection × Bool) : (held p).sort_class = p.1.sort_class ∧ (held p).bbox = p.1.bbox := by
  unfold held
  split
  · exact ⟨rfl, rfl⟩
  · exact ⟨rfl, rfl⟩

theorem suppress_held (hd : 0 < d.score) (es : List (detection × Bool)) :
    suppress fIOUThresh d (es.map held) =
      (held (d, (Elimination.turn (conflict fIOUThresh) beats d es).1),
        (Elimination.turn (conflict fIOUThresh) beats d es).2.map held) := by
  induction es with
  | nil => rfl
  | cons p es ih =>
    obtain ⟨e, alive⟩ := p
    obtain ⟨hclass, hbox⟩ := held_frame (e, alive)
    rw [List.map_cons, suppress, Elimination.turn, ih, hclass, hbox]
    by_cases hconf : conflict fIOUThresh d e = true
    · have hcond := hconf
      rw [conflict, Bool.and_eq_true, decide_eq_true_eq] at hcond
      rw [if_pos hcond, if_pos hconf]
      cases alive with
      | true =>
        by_cases hlt : e.score < d.score
        · have hbeats : ¬ (true && beats e d) = true := by
            rw [Bool.true_and, beats, decide_eq_true_eq]
            exact not_le.mpr hlt
          rw [if_neg hbeats]
          exact if_pos hlt
        · have hbeats : (true && beats e d) = true := by
            rw [Bool.true_and, beats, decide_eq_true_eq]
            exact not_lt.mp hlt
          rw [if_pos hbeats]
          exact if_neg hlt
      | false =>
        have hzero : (held (e, false)).score < d.score := by
          rw [show held (e, false) = e.remove from rfl, score_remove]
          exact hd
        rw [if_pos hzero, Bool.false_and, if_neg Bool.false_ne_true, List.map_cons,
          show (held (e, false)).remove = held (e, false) from remove_remove e]
    · have hcond := hconf
      rw [conflict, Bool.and_eq_true, decide_eq_true_eq] at hcond
      rw [if_neg hcond, if_neg hconf]
      rfl

theorem nmsLoop_cons (hd : 0 < d.score) (n : Nat) (es : List (detection × Bool)) :
    nmsLoop fIOUThresh (n + 1) (d :: es.map held) =
      if (Elimination.turn (conflict fIOUThresh) beats d es).1 then
        d :: nmsLoop fIOUThresh n ((Elimination.turn (conflict fIOUThresh) beats d es).2.map held)
      else nmsLoop fIOUThresh n ((Elimination.turn (conflict fIOUThresh) beats d es).2.map held) := by
  rw [nmsLoop, if_neg hd.ne', suppress_held hd]
  cases (Elimination.turn (conflict fIOUThresh) beats d es).1 with
  | true =>
    rw [if_pos rfl]
    exact if_pos hd
  | false =>
    rw [if_neg Bool.false_ne_true]
    apply if_neg
    rw [show held (d, false) = d.remove from rfl, score_remove]
    exact lt_irrefl 0

/-- The loops eliminate in pairs, as long as a score of zero says that a detection is out. -/
theorem nmsLoop_held (n : Nat) (es : List (detection × Bool)) (hpos : ∀ p ∈ es, 0 < p.1.score) :
    nmsLoop fIOUThresh n (es.map held) = Elimination.stays (conflict fIOUThresh) beats n es := by
  fun_induction Elimination.stays (conflict fIOUThresh) beats n es with
  | case1 => rfl
  | case2 n => cases n <;> rfl
  | case3 n d es r hstay ih =>
    obtain ⟨hd, hes⟩ := List.forall_mem_cons.mp hpos
    have hcons : nmsLoop fIOUThresh (n + 1) (d :: es.map held) = _ := nmsLoop_cons hd n es
    rw [if_pos hstay, ih (Elimination.forall_turn (P := fun x : detection => 0 < x.score) hes)] at hcons
    exact hcons
  | case4 n d es r hstay ih =>
    obtain ⟨hd, hes⟩ := List.forall_mem_cons.mp hpos
    have hcons : nmsLoop fIOUThresh (n + 1) (d :: es.map held) = _ := nmsLoop_cons hd n es
    rw [if_neg hstay, ih (Elimination.forall_turn (P := fun x : detection => 0 < x.score) hes)] at hcons
    exact hcons
  | case5 n d alive es hout ih =>
    have hes := (List.forall_mem_cons.mp hpos).2
    have hheld : held (d, alive) = d.remove := if_neg hout
    rw [List.map_cons, hheld, nmsLoop, if_pos (score_remove d)]
    exact ih hes

variable {dets : List detection} {total classes : Nat} {fDrawThresh : ℚ}

/-- The detections that are looked at: those with a score above the threshold. -/
def candidates (dets : List detection) (total classes : Nat) (fDrawThresh : ℚ) : List detection :=
  ((dets.take total).map (classify classes)).filter fun d => d.score > fDrawThresh

/-- The first entries of `dets` afterwards, as many as the call says. -/
def returned (dets : List detection) (total classes : Nat) (fIOUThresh fDrawThresh : ℚ) : List detection :=
  (do_nms_sort dets total classes fIOUThresh fDrawThresh).2.take (do_nms_sort dets total classes fIOUThresh fDrawThresh).1

theorem detbuf_eq (dets : List detection) (total classes : Nat) (fDrawThresh : ℚ) :
    ((dets.take total).filter fun d => (maxProb classes d.prob).1 > fDrawThresh).map (classify classes) =
      candidates dets total classes fDrawThresh := by
  rw [candidates, List.filter_map]
  congr 1
  apply List.filter_congr
  intro d _
  rw [Function.comp_apply, (score_classify classes d).1]

/-- What is returned are the survivors of the elimination. -/
theorem returned_eq (hdraw : 0 < fDrawThresh) :
    returned dets total classes fIOUThresh fDrawThresh =
      Elimination.survivors (conflict fIOUThresh) beats (candidates dets total classes fDrawThresh) := by
  have hpos : ∀ p ∈ (candidates dets total classes fDrawThresh).map fun d => (d, true), 0 < p.1.score := by
    intro p hp
    obtain ⟨d, hd, rfl⟩ := List.mem_map.mp hp
    have habove := (List.mem_filter.mp hd).2
    exact hdraw.trans (of_decide_eq_true habove)
  have hloop : nmsLoop fIOUThresh (candidates dets total classes fDrawThresh).length _ = _ := nmsLoop_held _ _ hpos
  have hheld : ((candidates dets total classes fDrawThresh).map fun d => (d, true)).map held =
      candidates dets total classes fDrawThresh := by
    rw [List.map_map]
    exact List.map_id _
  rw [hheld] at hloop
  simp only [returned, do_nms_sort, detbuf_eq, hloop]
  rw [List.append_assoc, List.take_left]
  rfl

theorem conflict_comm (fIOUThresh : ℚ) (d e : detection) : conflict fIOUThresh d e = conflict fIOUThresh e d := by
  unfold conflict
  rw [box_iou_comm, decide_eq_decide.mpr (eq_comm (a := d.sort_class))]

/-- The second detection is of the class of the first, overlaps it, and its score is not lower. -/
structure Outdoes (fIOUThresh : ℚ) (d e : detection) : Prop where
  sort_class : d.sort_class = e.sort_class
  overlaps : (box_iou d.bbox e.bbox).exceeds fIOUThresh = true
  score : d.score ≤ e.score

/-- The same, both being of `ds`. -/
def OutdoesAmong (ds : List detection) (fIOUThresh : ℚ) (d e : detection) : Prop :=
  d ∈ ds ∧ e ∈ ds ∧ Outdoes fIOUThresh d e

theorem outdoes_of_loses {e : detection} (h : Elimination.Loses (conflict fIOUThresh) beats d e) : Outdoes fIOUThresh d e := by
  cases h with
  | later hconf hlose =>
    rw [conflict_comm, conflict, Bool.and_eq_true, decide_eq_true_eq] at hconf
    rw [beats, decide_eq_false_iff_not, not_le] at hlose
    exact ⟨hconf.1, hconf.2, hlose.le⟩
  | earlier hconf hwin =>
    rw [conflict, Bool.and_eq_true, decide_eq_true_eq] at hconf
    rw [beats, decide_eq_true_eq] at hwin
    exact ⟨hconf.1, hconf.2, hwin⟩

/-- What is returned stands in the order of the input, has scores above the threshold, and
is free of overlaps within a class. -/
theorem returned_conflict_free (dets : List detection) (total classes : Nat) (fIOUThresh fDrawThresh : ℚ)
    (hdraw : 0 < fDrawThresh) :
    (do_nms_sort dets total classes fIOUThresh fDrawThresh).1 ≤ total ∧
      (returned dets total classes fIOUThresh fDrawThresh).length = (do_nms_sort dets total classes fIOUThresh fDrawThresh).1 ∧
      (returned dets total classes fIOUThresh fDrawThresh).Sublist ((dets.take total).map (classify classes)) ∧
      (∀ d ∈ returned dets total classes fIOUThresh fDrawThresh,
        fDrawThresh < d.score ∧ ∀ j < classes, d.prob.getD j 0 ≤ d.score) ∧
      (returned dets total classes fIOUThresh fDrawThresh).Pairwise fun d e =>
        d.sort_class = e.sort_class → (box_iou d.bbox e.bbox).exceeds fIOUThresh = false ∧
          (box_iou e.bbox d.bbox).exceeds fIOUThresh = false := by
  have heq : returned dets total classes fIOUThresh fDrawThresh = _ := returned_eq hdraw
  have hcand : (returned dets total classes fIOUThresh fDrawThresh).Sublist (candidates dets total classes fDrawThresh) := by
    rw [heq]
    exact Elimination.survivors_sublist _
  have hsub := hcand.trans List.filter_sublist
  have hlen : (returned dets total classes fIOUThresh fDrawThresh).length =
      (do_nms_sort dets total classes fIOUThresh fDrawThresh).1 := by
    simp only [returned, do_nms_sort, List.append_assoc, List.take_left]
  refine ⟨?_, hlen, hsub, fun d hd => ⟨?_, ?_⟩, ?_⟩
  · rw [← hlen]
    have hle := hsub.length_le
    rw [List.length_map, List.length_take] at hle
    exact hle.trans (Nat.min_le_left _ _)
  · exact of_decide_eq_true (List.mem_filter.mp (hcand.subset hd)).2
  · obtain ⟨d₀, -, rfl⟩ := List.mem_map.mp (hsub.subset hd)
    exact (score_classify classes d₀).2
  · rw [heq]
    refine (Elimination.survivors_pairwise _).imp fun {d e} hfree hclass => ?_
    rw [conflict, decide_eq_true hclass, Bool.true_and] at hfree
    rw [box_iou_comm e.bbox]
    exact ⟨hfree, hfree⟩

/-- Three detections in a row, each with a higher score than the one before it and
overlapping it. -/
def inRow : List detection :=
  [⟨⟨0, 0, 10, 10⟩, 0, [1 / 2]⟩, ⟨⟨3, 0, 10, 10⟩, 0, [3 / 5]⟩, ⟨⟨6, 0, 10, 10⟩, 0, [7 / 10]⟩]

theorem returned_conflict_free_inRow :
    (do_nms_sort inRow 3 1 (2 / 5) (2 / 5)).1 ≤ 3 ∧
      (returned inRow 3 1 (2 / 5) (2 / 5)).length = (do_nms_sort inRow 3 1 (2 / 5) (2 / 5)).1 ∧
      (returned inRow 3 1 (2 / 5) (2 / 5)).Sublist ((inRow.take 3).map (classify 1)) ∧
      (∀ d ∈ returned inRow 3 1 (2 / 5) (2 / 5), 2 / 5 < d.score ∧ ∀ j < 1, d.prob.getD j 0 ≤ d.score) ∧
      (returned inRow 3 1 (2 / 5) (2 / 5)).Pairwise fun d e =>
        d.sort_class = e.sort_class → (box_iou d.bbox e.bbox).exceeds (2 / 5) = false ∧
          (box_iou e.bbox d.bbox).exceeds (2 / 5) = false :=
  returned_conflict_free inRow 3 1 (2 / 5) (2 / 5) (by norm_num)

/-- From every detection above the threshold a chain of such detections, each overlapping the next
within its class and with scores that do not fall, leads to one that is returned. -/
theorem returned_chain (dets : List detection) (total classes : Nat) (fIOUThresh fDrawThresh : ℚ)
    (hdraw : 0 < fDrawThresh) :
    ∀ d ∈ (dets.take total).map (classify classes), fDrawThresh < d.score →
      ∃ e ∈ returned dets total classes fIOUThresh fDrawThresh,
        Relation.ReflTransGen (OutdoesAmong (candidates dets total classes fDrawThresh) fIOUThresh) d e := by
  intro d hd habove
  have hcand : d ∈ candidates dets total classes fDrawThresh := List.mem_filter.mpr ⟨hd, decide_eq_true habove⟩
  rw [returned_eq hdraw]
  obtain ⟨e, he, hchain⟩ : ∃ e ∈ Elimination.survivors (conflict fIOUThresh) beats _,
      Relation.ReflTransGen (Elimination.LosesAmong (conflict fIOUThresh) beats _) d e := Elimination.survivors_chain hcand
  exact ⟨e, he, Relation.ReflTransGen.mono (fun _ _ h => ⟨h.1, h.2.1, outdoes_of_loses h.2.2⟩) d e hchain⟩

/-- Only the last of the three is returned, and the first does not overlap it. -/
theorem first_of_row_lost :
    returned inRow 3 1 (2 / 5) (2 / 5) = [⟨⟨6, 0, 10, 10⟩, 0, [7 / 10]⟩] ∧
      ∃ d ∈ (inRow.take 3).map (classify 1), 2 / 5 < d.score ∧
        ∀ e ∈ returned inRow 3 1 (2 / 5) (2 / 5), e ≠ d ∧ ¬ Outdoes (2 / 5) d e := by
  have hlast : returned inRow 3 1 (2 / 5) (2 / 5) = [⟨⟨6, 0, 10, 10⟩, 0, [7 / 10]⟩] := by decide +kernel
  refine ⟨hlast, ⟨⟨0, 0, 10, 10⟩, 0, [1 / 2]⟩, by decide +kernel, by decide +kernel, fun e he => ?_⟩
  rw [hlast] at he
  rw [List.mem_singleton.mp he]
  refine ⟨by decide +kernel, fun h => ?_⟩
  exact absurd h.overlaps (by decide +kernel)

theorem returned_chain_inRow : ∃ e ∈ returned inRow 3 1 (2 / 5) (2 / 5),
    Relation.ReflTransGen (OutdoesAmong (candidates inRow 3 1 (2 / 5)) (2 / 5)) ⟨⟨0, 0, 10, 10⟩, 0, [1 / 2]⟩ e :=
  returned_chain inRow 3 1 (2 / 5) (2 / 5) (by norm_num) ⟨⟨0, 0, 10, 10⟩, 0, [1 / 2]⟩ (by decide +kernel) (by decide +kernel)

end Perception.Alg.Detect
