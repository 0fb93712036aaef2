import Mathlib.Data.List.Basic

/-!
# Work in parts

A list that is cut into consecutive parts, the parts folded each on its own, and tasks whose steps
come in any order that keeps the order inside each task.
-/
namespace Perception.Lib.Parallel

set_option autoImplicit false

variable {α : Type}

/-- The pairs lead from `b` to `e`, each where the one before it ends. -/
def Cuts (b : Nat) : List (Nat × Nat) → Nat → Prop
  | [], e => b = e
  | p :: ps, e => p.1 = b ∧ b ≤ p.2 ∧ Cuts p.2 ps e

/-- The part from `b` to `e`, where it is inside. -/
def slice (l : List α) (b e : Nat) : Option (List α) :=
  if b ≤ e ∧ e ≤ l.length then some ((l.drop b).take (e - b)) else none

variable {l : List α} {b m e : Nat} {ps qs : List (Nat × Nat)}

theorem Cuts.append (hps : Cuts b ps m) (hqs : Cuts m qs e) : Cuts b (ps ++ qs) e := by
  induction ps generalizing b with
  | nil =>
    obtain rfl : b = m := hps
    exact hqs
  | cons p ps ih =>
    obtain ⟨hfirst, hle, hrest⟩ := hps
    exact ⟨hfirst, hle, ih hrest⟩

theorem Cuts.le (h : Cuts b ps e) : b ≤ e := by
  induction ps generalizing b with
  | nil => exact Nat.le_of_eq h
  | cons p ps ih =>
    obtain ⟨-, hle, hrest⟩ := h
    exact Nat.le_trans hle (ih hrest)

theorem drop_take_split (hbm : b ≤ m) (hme : m ≤ e) :
    (l.drop b).take (e - b) = (l.drop b).take (m - b) ++ (l.drop m).take (e - m) := by
  have hdrop : l.drop m = (l.drop b).drop (m - b) := by
    rw [List.drop_drop]
    congr 1
    omega
  have hlen : e - b = m - b + (e - m) := by omega
  rw [hdrop, hlen, List.take_add]

/-- The parts are inside and together are what lies between the ends. -/
theorem Cuts.slices (h : Cuts b ps e) (hin : e ≤ l.length) :
    ∃ parts, ps.mapM (fun p => slice l p.1 p.2) = some parts ∧ parts.flatten = (l.drop b).take (e - b) := by
  induction ps generalizing b with
  | nil =>
    obtain rfl : b = e := h
    refine ⟨[], rfl, ?_⟩
    rw [Nat.sub_self, List.take_zero]
    rfl
  | cons p ps ih =>
    obtain ⟨hfirst, hle, hrest⟩ := h
    obtain ⟨parts, hparts, hflatten⟩ := ih hrest
    have hend := hrest.le
    have hslice : slice l p.1 p.2 = some ((l.drop b).take (p.2 - b)) := by
      rw [hfirst]
      exact if_pos ⟨hle, by omega⟩
    refine ⟨(l.drop b).take (p.2 - b) :: parts, ?_, ?_⟩
    · rw [List.mapM_cons, hslice, hparts]
      rfl
    · rw [List.flatten_cons, hflatten, ← drop_take_split hle hend]

/-- Where `init` is neutral on the right the parts can be folded first. -/
theorem foldl_parts {op : α → α → α} {init : α} (hassoc : ∀ a b c, op (op a b) c = op a (op b c))
    (hinit : ∀ a, op a init = a) (parts : List (List α)) :
    (parts.map (List.foldl op init)).foldl op init = parts.flatten.foldl op init := by
  have hfold : ∀ (acc : α) (part : List α), op acc (part.foldl op init) = part.foldl op acc := by
    intro acc part
    have : Std.Associative op := ⟨hassoc⟩
    have hmove : part.foldl op (op acc init) = op acc (part.foldl op init) := List.foldl_assoc
    rw [← hmove, hinit]
  have hacc : ∀ acc, (parts.map (List.foldl op init)).foldl op acc = parts.flatten.foldl op acc := by
    induction parts with
    | nil =>
      intro acc
      rfl
    | cons part parts ih =>
      intro acc
      rw [List.map_cons, List.foldl_cons, List.flatten_cons, List.foldl_append, hfold, ih]
  exact hacc init

/-- The steps of the tasks, one after the other: each is the next of one of them. -/
inductive Interleaved : List (List α) → List α → Prop
  | done {tasks : List (List α)} (h : ∀ task ∈ tasks, task = []) : Interleaved tasks []
  | step {before after : List (List α)} {task steps : List α} {x : α}
    (h : Interleaved (before ++ task :: after) steps) : Interleaved (before ++ (x :: task) :: after) (x :: steps)

/-- No step is left out or made twice. -/
theorem Interleaved.perm {tasks : List (List α)} {steps : List α} (h : Interleaved tasks steps) :
    steps.Perm tasks.flatten := by
  induction h with
  | done h =>
    rw [List.flatten_eq_nil_iff.mpr h]
  | @step before after task steps x h ih =>
    rw [List.flatten_append, List.flatten_cons] at ih ⊢
    apply (ih.cons x).trans
    exact List.perm_middle.symm

/-- One task after the other is a possible order. -/
theorem interleaved_flatten (tasks : List (List α)) : Interleaved tasks tasks.flatten := by
  have hrest : ∀ before : List (List α), (∀ task ∈ before, task = []) →
      Interleaved (before ++ tasks) tasks.flatten := by
    induction tasks with
    | nil =>
      intro before hbefore
      rw [List.append_nil]
      exact .done hbefore
    | cons task tasks ih =>
      intro before hbefore
      induction task with
      | nil =>
        rw [List.flatten_cons, List.nil_append, List.append_cons]
        apply ih
        intro t ht
        rcases List.mem_append.mp ht with ht | ht
        · exact hbefore t ht
        · exact List.mem_singleton.mp ht
      | cons x task ihtask => exact .step ihtask
  exact hrest [] nofun

end Perception.Lib.Parallel
