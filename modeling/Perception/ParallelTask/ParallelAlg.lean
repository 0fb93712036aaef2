import Mathlib.Data.List.Count
import Mathlib.Data.List.Range
import Perception.Lib.Parallel

/-!
# Loops and folds in parallel

The range of `ParallelForeach` and `ParallelReduce` is cut into blocks, one for each future. An
iterator is its distance from the begin of the range.
-/
namespace Perception.ParallelTask

set_option autoImplicit false

open Perception.Lib Perception.Lib.Parallel

/-- The loop that makes a future for each block, with the iterator that is advanced; none where it
has not come to `last` after `fuel` turns. -/
def blocks (blockSize last : Nat) : Nat → Nat → Option (List (Nat × Nat))
  | 0, _ => none
  | fuel + 1, iter =>
    if iter = last then some []
    else (blocks blockSize last fuel (iter + blockSize)).map ((iter, iter + blockSize) :: ·)

/-- The blocks of all futures. The division by zero has no result. -/
def partition (distance partNum : Nat) : Option (List (Nat × Nat)) :=
  if partNum = 0 then none
  else
    let blockSize := distance / partNum
    if 0 < blockSize then
      let last := (partNum - 1) * blockSize
      (blocks blockSize last (distance + 1) 0).map (· ++ [(last, distance)])
    else
      let last := distance
      (blocks 1 last (distance + 1) 0).map (· ++ [(last, distance)])

variable {α : Type}

/-- What each future passes to `func`, in its order: the places of the elements. -/
def ParallelForeach (range : List α) (partNum : Nat) : Option (List (List Nat)) := do
  let parts ← partition range.length partNum
  parts.mapM fun p => slice (List.range range.length) p.1 p.2

def ParallelReduce (range : List α) (init : α) (rangeFunc reduceFunc : List α → α → α) (partNum : Nat) : Option α := do
  let parts ← partition range.length partNum
  let futures ← parts.mapM fun p => slice range p.1 p.2
  let results := futures.map fun block => rangeFunc block init
  some (reduceFunc results init)

variable {blockSize last fuel iter : Nat} {parts : List (Nat × Nat)}

theorem blocks_cuts (h : blocks blockSize last fuel iter = some parts) : Cuts iter parts last := by
  induction fuel generalizing iter parts with
  | zero => cases h
  | succ fuel ih =>
    unfold blocks at h
    split at h
    · next hend =>
      obtain rfl := Option.some.inj h
      exact hend
    · obtain ⟨rest, hrest, rfl⟩ := Option.map_eq_some_iff.mp h
      exact ⟨rfl, Nat.le_add_right _ _, ih hrest⟩

/-- A whole number of blocks lies between the iterator and `last`. -/
theorem exists_blocks {k : Nat} (hlast : iter + k * blockSize = last) (hfuel : k < fuel) :
    ∃ parts, blocks blockSize last fuel iter = some parts := by
  induction fuel generalizing iter k with
  | zero => omega
  | succ fuel ih =>
    unfold blocks
    split
    · exact ⟨[], rfl⟩
    · next hmore =>
      cases k with
      | zero =>
        rw [Nat.zero_mul, Nat.add_zero] at hlast
        exact absurd hlast hmore
      | succ k =>
        have hnext : iter + blockSize + k * blockSize = last := by
          rw [← hlast, Nat.succ_mul]
          omega
        obtain ⟨rest, hrest⟩ := ih hnext (by omega)
        rw [hrest]
        exact ⟨_, rfl⟩

/-- The blocks are consecutive and cover the range, whatever its length and the number of parts. -/
theorem partition_cuts (distance : Nat) {partNum : Nat} (hpart : 1 ≤ partNum) :
    ∃ parts, partition distance partNum = some parts ∧ Cuts 0 parts distance := by
  have hcover : ∀ {blockSize last k : Nat}, k * blockSize = last → k ≤ distance → last ≤ distance →
      ∃ parts, (blocks blockSize last (distance + 1) 0).map (· ++ [(last, distance)]) = some parts ∧
        Cuts 0 parts distance := by
    intro blockSize last k hlast hk hin
    obtain ⟨parts, hparts⟩ := exists_blocks ((Nat.zero_add _).trans hlast) (Nat.lt_succ_of_le hk)
    refine ⟨parts ++ [(last, distance)], ?_, ?_⟩
    · rw [hparts]
      rfl
    · exact (blocks_cuts hparts).append ⟨rfl, hin, rfl⟩
  have hzero : partNum ≠ 0 := by omega
  unfold partition
  rw [if_neg hzero]
  dsimp only
  split
  · next hsize =>
    have hdiv := Nat.div_mul_le_self distance partNum
    have hmul : (partNum - 1) * (distance / partNum) ≤ distance := by
      apply Nat.le_trans _ hdiv
      rw [Nat.mul_comm]
      exact Nat.mul_le_mul_left _ (Nat.sub_le _ _)
    have hle := Nat.le_mul_of_pos_right (partNum - 1) hsize
    exact hcover rfl (Nat.le_trans hle hmul) hmul
  · exact hcover (Nat.mul_one distance) (Nat.le_refl _) (Nat.le_refl _)

/-- The fold of a range of iterators. -/
def foldRange (op : α → α → α) (range : List α) (init : α) : α := range.foldl op init

theorem ParallelReduce_eq_foldl {op : α → α → α} {init : α} {partNum : Nat} (range : List α) (hpart : 1 ≤ partNum)
    (hassoc : ∀ a b c, op (op a b) c = op a (op b c)) (hinit : ∀ a, op a init = a) :
    ParallelReduce range init (foldRange op) (foldRange op) partNum = some (range.foldl op init) := by
  obtain ⟨parts, hparts, hcuts⟩ := partition_cuts range.length hpart
  obtain ⟨futures, hfutures, hflatten⟩ := hcuts.slices (Nat.le_refl _)
  rw [List.drop_zero, Nat.sub_zero, List.take_length] at hflatten
  unfold ParallelReduce
  rw [hparts, Option.bind_eq_bind, Option.bind_some, hfutures, Option.bind_eq_bind, Option.bind_some]
  have hfold := foldl_parts hassoc hinit futures
  rw [hflatten] at hfold
  exact congrArg some hfold

theorem ParallelForeach_tasks {partNum : Nat} (range : List α) (hpart : 1 ≤ partNum) :
    ∃ tasks, ParallelForeach range partNum = some tasks ∧ tasks.flatten = List.range range.length := by
  obtain ⟨parts, hparts, hcuts⟩ := partition_cuts range.length hpart
  have hlength : (List.range range.length).length = range.length := List.length_range
  obtain ⟨tasks, htasks, hflatten⟩ := hcuts.slices (l := List.range range.length) (Nat.le_of_eq hlength.symm)
  refine ⟨tasks, ?_, ?_⟩
  · unfold ParallelForeach
    rw [hparts]
    exact htasks
  · rw [hflatten, List.drop_zero, Nat.sub_zero]
    exact List.take_of_length_le (Nat.le_of_eq hlength)

/-- With the futures run one after the other `func` gets the elements in their order. -/
theorem ParallelForeach_in_order {range : List α} {partNum : Nat} {tasks : List (List Nat)} (hpart : 1 ≤ partNum)
    (h : ParallelForeach range partNum = some tasks) : Interleaved tasks (List.range range.length) := by
  obtain ⟨tasks', htasks, hflatten⟩ := ParallelForeach_tasks range hpart
  obtain rfl := Option.some.inj (htasks.symm.trans h)
  rw [← hflatten]
  exact interleaved_flatten tasks'

/-- **Parts.** The fold of the parts is the fold of the range, and each element is passed to `func`
exactly once, in whatever order the futures run. -/
theorem parallel_sequential (op : α → α → α) (init : α) (range : List α) (partNum : Nat) (hpart : 1 ≤ partNum)
    (hassoc : ∀ a b c, op (op a b) c = op a (op b c)) (hinit : ∀ a, op init a = a ∧ op a init = a) :
    ParallelReduce range init (foldRange op) (foldRange op) partNum = some (range.foldl op init) ∧
      ∃ tasks, ParallelForeach range partNum = some tasks ∧
        ∀ calls, Interleaved tasks calls → ∀ i, calls.count i = if i < range.length then 1 else 0 := by
  refine ⟨ParallelReduce_eq_foldl range hpart hassoc fun a => (hinit a).2, ?_⟩
  obtain ⟨tasks, htasks, hflatten⟩ := ParallelForeach_tasks range hpart
  refine ⟨tasks, htasks, ?_⟩
  intro calls hcalls i
  rw [hcalls.perm.count_eq, hflatten]
  exact List.count_range

/-- Seven elements in three parts: the last block has the remainder. -/
theorem parallel_sequential_remainder :
    ParallelReduce [3, 1, 4, 1, 5, 9, 2] 0 (foldRange (· + ·)) (foldRange (· + ·)) 3 =
        some ([3, 1, 4, 1, 5, 9, 2].foldl (· + ·) 0) ∧
      ∃ tasks, ParallelForeach [3, 1, 4, 1, 5, 9, 2] 3 = some tasks ∧
        ∀ calls, Interleaved tasks calls → ∀ i, calls.count i = if i < 7 then 1 else 0 :=
  parallel_sequential (· + ·) 0 [3, 1, 4, 1, 5, 9, 2] 3 (by decide) Nat.add_assoc
    fun a => ⟨Nat.zero_add a, Nat.add_zero a⟩

example : partition 7 3 = some [(0, 2), (2, 4), (4, 7)] := by decide

example : partition 2 3 = some [(0, 1), (1, 2), (2, 2)] := by decide

end Perception.ParallelTask
