import Mathlib.Data.List.DropRight
import Mathlib.Data.List.Nodup
import Mathlib.Order.Interval.Finset.Nat
import Mathlib.Data.Int.Interval
import Mathlib.Order.Lattice

/-!
# Tables with an autoincrement key

A row is filed under a number that is larger than every number ever given. A table is kept
short by deleting, before each insertion, what lies a fixed distance or more below the
largest number: the rows are then the last ones inserted.
-/
namespace Perception.Lib

set_option autoImplicit false

structure AutoTable (α : Type) where
  rows : List (Int × α)
  /-- The largest number given so far. -/
  seq : Nat
  sorted : rows.Pairwise fun r r' => r.1 < r'.1
  bounded : ∀ r ∈ rows, 0 < r.1 ∧ r.1 ≤ (seq : Int)

namespace AutoTable

variable {α : Type}

def empty (seq : Nat) : AutoTable α := ⟨[], seq, .nil, fun _ h => absurd h (List.not_mem_nil)⟩

theorem sorted_insert (t : AutoTable α) (a : α) :
    (t.rows ++ [((t.seq : Int) + 1, a)]).Pairwise fun r r' => r.1 < r'.1 := by
  refine List.pairwise_append.mpr ⟨t.sorted, List.pairwise_singleton _ _, fun r hr r' hr' => ?_⟩
  rw [List.mem_singleton] at hr'
  subst hr'
  have hle := (t.bounded r hr).2
  exact Int.lt_add_one_of_le hle

theorem bounded_insert (t : AutoTable α) (a : α) :
    ∀ r ∈ t.rows ++ [((t.seq : Int) + 1, a)], 0 < r.1 ∧ r.1 ≤ ((t.seq + 1 : Nat) : Int) := by
  intro r hr
  rcases List.mem_append.mp hr with hr | hr
  · have hb := t.bounded r hr
    omega
  · rw [List.mem_singleton] at hr
    subst hr
    simp only
    omega

/-- A row with the key left to the table. -/
def insert (t : AutoTable α) (a : α) : AutoTable α :=
  ⟨t.rows ++ [((t.seq : Int) + 1, a)], t.seq + 1, t.sorted_insert a, t.bounded_insert a⟩

/-- The rows that fail the condition are kept, in their order. -/
def deleteWhere (t : AutoTable α) (p : Int → Bool) : AutoTable α where
  rows := t.rows.filter fun r => !p r.1
  seq := t.seq
  sorted := t.sorted.filter _
  bounded := fun r hr => t.bounded r (List.mem_of_mem_filter hr)

/-- `max(id)`, which an empty table does not have. -/
def maxId (t : AutoTable α) : Option Int := (t.rows.map Prod.fst).max?

/-- `id <= (max(id) - n)`; a comparison with nothing holds for no row. -/
def deleteBelow (t : AutoTable α) (n : Int) : AutoTable α :=
  t.deleteWhere fun id => t.maxId.any fun m => id ≤ m - n

/-- The rows with consecutive numbers, the first being the one after `s`. -/
def numbered (s : Int) : List α → List (Int × α)
  | [] => []
  | a :: as => (s + 1, a) :: numbered (s + 1) as

theorem map_snd_numbered (s : Int) (as : List α) : (numbered s as).map Prod.snd = as := by
  induction as generalizing s with
  | nil => rfl
  | cons a as ih => rw [numbered, List.map_cons, ih]

theorem mem_of_mem_numbered {s : Int} {as : List α} {e : Int × α} (h : e ∈ numbered s as) : e.2 ∈ as := by
  rw [← map_snd_numbered s as]
  exact List.mem_map_of_mem h

theorem numbered_append_singleton (s : Int) (as : List α) (a : α) :
    numbered s (as ++ [a]) = numbered s as ++ [(s + as.length + 1, a)] := by
  induction as generalizing s with
  | nil => simp [numbered]
  | cons b as ih =>
    rw [List.cons_append, numbered, ih, numbered, List.cons_append, List.length_cons]
    congr 4
    push_cast
    omega

theorem mem_ids_numbered {s i : Int} {as : List α} :
    i ∈ (numbered s as).map Prod.fst ↔ s < i ∧ i ≤ s + as.length := by
  induction as generalizing s with
  | nil =>
    simp only [numbered, List.map_nil, List.not_mem_nil, List.length_nil, false_iff]
    omega
  | cons a as ih =>
    rw [numbered, List.map_cons, List.mem_cons, ih, List.length_cons]
    push_cast
    omega

theorem nodup_numbered (s : Int) (as : List α) : ((numbered s as).map Prod.fst).Nodup := by
  induction as generalizing s with
  | nil => exact List.nodup_nil
  | cons a as ih =>
    rw [numbered, List.map_cons, List.nodup_cons]
    refine ⟨fun h => ?_, ih (s + 1)⟩
    have := (mem_ids_numbered.mp h).1
    omega

theorem exists_mem_numbered (s : Int) {as : List α} {a : α} (h : a ∈ as) : ∃ i, (i, a) ∈ numbered s as := by
  rw [← map_snd_numbered s as] at h
  obtain ⟨e, he, rfl⟩ := List.mem_map.mp h
  exact ⟨e.1, he⟩

theorem max?_numbered {s : Int} {as : List α} (h : as ≠ []) :
    ((numbered s as).map Prod.fst).max? = some (s + as.length) := by
  have hpos : 0 < as.length := List.length_pos_iff.mpr h
  refine List.max?_eq_some_iff.mpr ⟨mem_ids_numbered.mpr (by omega), fun i hi => ?_⟩
  exact (mem_ids_numbered.mp hi).2

/-- Deleting up to a number drops a prefix of rows numbered without a gap. -/
theorem filter_numbered (s b : Int) (as : List α) :
    (numbered s as).filter (fun r => !decide (r.1 ≤ b)) =
      numbered (s + (b - s).toNat) (as.drop (b - s).toNat) := by
  induction as generalizing s with
  | nil => simp [numbered]
  | cons a as ih =>
    rw [numbered, List.filter_cons, ih]
    by_cases hle : s + 1 ≤ b
    · obtain ⟨k, hk⟩ : ∃ k, (b - s).toNat = k + 1 := ⟨(b - s).toNat - 1, by omega⟩
      have hk' : (b - (s + 1)).toNat = k := by omega
      simp only [hle, decide_true, Bool.not_true, Bool.false_eq_true, if_false, hk, hk', List.drop_succ_cons]
      congr 1
      push_cast
      omega
    · have hk : (b - s).toNat = 0 := by omega
      have hk' : (b - (s + 1)).toNat = 0 := by omega
      simp [hle, hk, hk', numbered]

/-- The rows are those of the history without the first `d`, under the numbers that they
were given. -/
structure Suffix (t : AutoTable α) (s d : Nat) (hist : List α) : Prop where
  rows_eq : t.rows = numbered (s + d) (hist.drop d)
  seq_eq : t.seq = s + hist.length
  le_length : d ≤ hist.length

namespace Suffix

variable {t : AutoTable α} {s d : Nat} {hist : List α}

theorem of_empty (s : Nat) : Suffix (empty s : AutoTable α) s 0 [] := ⟨rfl, rfl, Nat.le_refl 0⟩

theorem map_snd (h : Suffix t s d hist) : t.rows.map Prod.snd = hist.drop d := by
  rw [h.rows_eq, map_snd_numbered]

theorem insert (h : Suffix t s d hist) (a : α) : Suffix (t.insert a) s d (hist ++ [a]) where
  rows_eq := by
    have hlen : ((t.seq : Int) + 1, a) = (((s : Int) + d) + (hist.drop d).length + 1, a) := by
      rw [h.seq_eq, List.length_drop]
      congr 1
      have := h.le_length
      omega
    rw [List.drop_append_of_le_length h.le_length, numbered_append_singleton, ← h.rows_eq, ← hlen]
    rfl
  seq_eq := by
    rw [List.length_append, List.length_singleton, ← Nat.add_assoc, ← h.seq_eq]
    rfl
  le_length := by
    have := h.le_length
    rw [List.length_append]
    omega

theorem maxId_eq (h : Suffix t s d hist) (hd : d < hist.length) : t.maxId = some ((s : Int) + hist.length) := by
  have hne : hist.drop d ≠ [] := by
    rw [Ne, List.drop_eq_nil_iff]
    omega
  rw [maxId, h.rows_eq, max?_numbered hne, List.length_drop]
  congr 1
  omega

/-- What is deleted is all but the last `n`, unless more than that was gone already. -/
theorem deleteBelow (h : Suffix t s d hist) {n : Nat} (hd : d ≤ hist.length - n) :
    Suffix (t.deleteBelow n) s (hist.length - n) hist := by
  refine ⟨?_, h.seq_eq, Nat.sub_le _ _⟩
  by_cases hlt : d < hist.length
  · have hrows : (t.deleteBelow n).rows =
        t.rows.filter fun r => !decide (r.1 ≤ (s : Int) + hist.length - n) := by
      simp only [AutoTable.deleteBelow, deleteWhere, h.maxId_eq hlt, Option.any_some]
    have hk : ((s : Int) + hist.length - n - (s + d)).toNat = hist.length - n - d := by omega
    rw [hrows, h.rows_eq, filter_numbered, hk, List.drop_drop, Nat.add_sub_cancel' hd]
    congr 1
    omega
  · have hdrop : hist.length - n = d := by
      have := h.le_length
      omega
    have hnil : t.rows = [] := by
      rw [h.rows_eq, List.drop_eq_nil_of_le (by omega)]
      rfl
    rw [hdrop, ← h.rows_eq, hnil]
    simp only [AutoTable.deleteBelow, deleteWhere, hnil, List.filter_nil]

end Suffix

inductive Stmt (α : Type) where
  /-- `delete from T where id <= (select max(id) - n from T)`. -/
  | deleteBelow (n : Nat)
  | insert (a : α)

def exec (t : AutoTable α) : Stmt α → AutoTable α
  | .deleteBelow n => t.deleteBelow n
  | .insert a => t.insert a

def run (t : AutoTable α) (l : List (Stmt α)) : AutoTable α := l.foldl exec t

/-- The rows that the statements insert. -/
def inserted : List (Stmt α) → List α
  | [] => []
  | .deleteBelow _ :: l => inserted l
  | .insert a :: l => a :: inserted l

theorem inserted_append (l l' : List (Stmt α)) : inserted (l ++ l') = inserted l ++ inserted l' := by
  induction l with
  | nil => rfl
  | cons st l ih =>
    cases st with
    | deleteBelow n => exact ih
    | insert a =>
      rw [List.cons_append, inserted, ih, inserted]
      rfl

/-- Every insertion comes directly after a deletion at the distance `n`. -/
inductive Trimmed (n : Nat) : List (Stmt α) → Prop
  | nil : Trimmed n []
  | delete {l : List (Stmt α)} (h : Trimmed n l) : Trimmed n (.deleteBelow n :: l)
  | store {l : List (Stmt α)} (a : α) (h : Trimmed n l) : Trimmed n (.deleteBelow n :: .insert a :: l)

theorem Trimmed.append {n : Nat} {l l' : List (Stmt α)} (h : Trimmed n l) (h' : Trimmed n l') :
    Trimmed n (l ++ l') := by
  induction h with
  | nil => exact h'
  | delete h ih => exact .delete ih
  | store a h ih => exact .store a ih

/-- What holds of the rows inserted so far and the table, after each insertion. -/
def AfterEachInsert (P : List α → AutoTable α → Prop) (t : AutoTable α) (l : List (Stmt α)) : Prop :=
  ∀ pre a post, l = pre ++ .insert a :: post →
    P (inserted (pre ++ [.insert a])) (t.run (pre ++ [.insert a]))

theorem afterEachInsert_nil {P : List α → AutoTable α → Prop} {t : AutoTable α} : AfterEachInsert P t [] := by
  intro pre a post hl
  cases pre <;> cases hl

theorem afterEachInsert_delete_cons {P : List α → AutoTable α → Prop} {t : AutoTable α} {n : Nat}
    {l : List (Stmt α)} (h : AfterEachInsert P (t.deleteBelow n) l) :
    AfterEachInsert P t (.deleteBelow n :: l) := by
  intro pre a post hl
  cases pre with
  | nil => cases hl
  | cons st pre =>
    rw [List.cons_append] at hl
    obtain ⟨rfl, htail⟩ := List.cons.inj hl
    exact h pre a post htail

theorem afterEachInsert_insert_cons {P : List α → AutoTable α → Prop} {t : AutoTable α} {b : α}
    {l : List (Stmt α)} (hb : P [b] (t.insert b))
    (h : AfterEachInsert (fun new => P (b :: new)) (t.insert b) l) : AfterEachInsert P t (.insert b :: l) := by
  intro pre a post hl
  cases pre with
  | nil =>
    rw [List.nil_append] at hl
    obtain ⟨hab, -⟩ := List.cons.inj hl
    cases hab
    exact hb
  | cons st pre =>
    rw [List.cons_append] at hl
    obtain ⟨rfl, htail⟩ := List.cons.inj hl
    exact h pre a post htail

/-- After an insertion that follows a deletion at the distance `n` there are `n + 1` rows. -/
theorem rows_after_insert {n : Nat} {l : List (Stmt α)} (hT : Trimmed n l) {t : AutoTable α} {s d : Nat}
    {hist : List α} (hS : Suffix t s d hist) (hd : d ≤ hist.length - n) :
    AfterEachInsert (fun new t' => t'.rows.map Prod.snd = (hist ++ new).rtake (n + 1)) t l := by
  induction hT generalizing t d hist with
  | nil => exact afterEachInsert_nil
  | delete h ih => exact afterEachInsert_delete_cons (ih (hS.deleteBelow hd) (Nat.le_refl _))
  | store b h ih =>
    have hS' := (hS.deleteBelow hd).insert b
    have hlen : (hist ++ [b]).length - (n + 1) = hist.length - n := by
      rw [List.length_append, List.length_singleton]
      omega
    have hle : hist.length - n ≤ (hist ++ [b]).length - n := by
      rw [List.length_append]
      omega
    refine afterEachInsert_delete_cons (afterEachInsert_insert_cons ?_ ?_)
    · rw [List.rtake, hlen]
      exact hS'.map_snd
    · have hrest := ih hS' hle
      simp only [List.append_assoc, List.singleton_append] at hrest
      exact hrest

theorem rtake_succ_eq_rtake_iff (n : Nat) (xs : List α) : xs.rtake (n + 1) = xs.rtake n ↔ xs.length ≤ n := by
  constructor
  · intro h
    have hlen := congrArg List.length h
    simp only [List.rtake, List.length_drop] at hlen
    omega
  · intro h
    have h₁ : xs.length - (n + 1) = 0 := by omega
    have h₀ : xs.length - n = 0 := by omega
    rw [List.rtake, List.rtake, h₁, h₀]

theorem exists_last_insert {l : List (Stmt α)} (h : inserted l ≠ []) :
    ∃ pre a post, l = pre ++ .insert a :: post ∧ inserted (pre ++ [.insert a]) = inserted l := by
  induction l with
  | nil => exact absurd rfl h
  | cons st l ih =>
    cases st with
    | deleteBelow n =>
      obtain ⟨pre, a, post, hl, heq⟩ := ih h
      exact ⟨.deleteBelow n :: pre, a, post, by rw [hl]; rfl, heq⟩
    | insert a =>
      by_cases hl : inserted l = []
      · refine ⟨[], a, l, rfl, ?_⟩
        rw [inserted, hl]
        rfl
      · obtain ⟨pre, b, post, hl, heq⟩ := ih hl
        refine ⟨.insert a :: pre, b, post, by rw [hl]; rfl, ?_⟩
        rw [List.cons_append, inserted, heq, inserted]

/-- A table trimmed so holds the last `n + 1` rows after each insertion. -/
theorem afterEachInsert_rtake_succ {n : Nat} {l : List (Stmt α)} (hT : Trimmed n l) (s : Nat) :
    AfterEachInsert (fun hist t => t.rows.map Prod.snd = hist.rtake (n + 1)) (empty s) l := by
  have hrows := rows_after_insert hT (Suffix.of_empty s) (Nat.zero_le _)
  simp only [List.nil_append] at hrows
  exact hrows

/-- The last `n` rows are what a table trimmed so holds after each insertion only as long
as no more were inserted. -/
theorem afterEachInsert_rtake_iff {n : Nat} {l : List (Stmt α)} (hT : Trimmed n l) (s : Nat) :
    AfterEachInsert (fun hist t => t.rows.map Prod.snd = hist.rtake n) (empty s) l ↔ (inserted l).length ≤ n := by
  have hrows := afterEachInsert_rtake_succ hT s
  constructor
  · intro h
    by_cases hne : inserted l = []
    · rw [hne]
      exact Nat.zero_le n
    · obtain ⟨pre, a, post, hl, heq⟩ := exists_last_insert hne
      rw [← heq]
      exact (rtake_succ_eq_rtake_iff n _).mp ((hrows pre a post hl).symm.trans (h pre a post hl))
  · intro hlen pre a post hl
    have hpre : (inserted (pre ++ [.insert a])).length ≤ n := by
      have happ : l = (pre ++ [.insert a]) ++ post := by rw [hl, List.append_assoc]; rfl
      rw [happ, inserted_append, List.length_append] at hlen
      omega
    exact (hrows pre a post hl).trans ((rtake_succ_eq_rtake_iff n _).mpr hpre)

/-- `where id >= start order by id asc`. -/
def rowsFrom (t : AutoTable α) (start : Int) : List (Int × α) := t.rows.filter fun r => start ≤ r.1

theorem rowsFrom_eq_rows {t : AutoTable α} {start : Int} (h : ∀ r ∈ t.rows, start ≤ r.1) : t.rowsFrom start = t.rows := by
  apply List.filter_eq_self.mpr
  intro r hr
  exact decide_eq_true (h r hr)

theorem mem_rows_of_mem_rowsFrom {t : AutoTable α} {start : Int} {r : Int × α} (h : r ∈ t.rowsFrom start) : r ∈ t.rows :=
  List.mem_of_mem_filter h

theorem le_of_mem_rowsFrom {t : AutoTable α} {start : Int} {r : Int × α} (h : r ∈ t.rowsFrom start) : start ≤ r.1 :=
  of_decide_eq_true (List.mem_filter.mp h).2

/-- Behind the first `k` of the rows from a number on come the rows from the number after
the last of them. -/
theorem rowsFrom_succ_last {t : AutoTable α} {start : Int} {k : Nat} {r : Int × α}
    (h : ((t.rowsFrom start).take k).getLast? = some r) : t.rowsFrom (r.1 + 1) = (t.rowsFrom start).drop k := by
  have hsorted : (t.rowsFrom start).Pairwise fun r r' => r.1 < r'.1 := t.sorted.filter _
  obtain ⟨front, hfront⟩ := List.getLast?_eq_some_iff.mp h
  have hsplit : t.rowsFrom start = (front ++ [r]) ++ (t.rowsFrom start).drop k := by
    rw [← hfront, List.take_append_drop]
  have hr : r ∈ t.rowsFrom start := by
    apply List.mem_of_mem_take (i := k)
    rw [hfront]
    exact List.mem_append_right _ (List.mem_singleton_self r)
  have hstart := le_of_mem_rowsFrom hr
  rw [hsplit] at hsorted
  obtain ⟨hpage, -, hrest⟩ := List.pairwise_append.mp hsorted
  obtain ⟨-, -, hlast⟩ := List.pairwise_append.mp hpage
  have hgone : (front ++ [r]).filter (fun r' => decide (r.1 + 1 ≤ r'.1)) = [] := by
    apply List.filter_eq_nil_iff.mpr
    intro r' hr'
    rw [decide_eq_true_eq]
    rcases List.mem_append.mp hr' with hr' | hr'
    · have := hlast r' hr' r (List.mem_singleton_self r)
      omega
    · rw [List.mem_singleton.mp hr']
      omega
  have hkept : ((t.rowsFrom start).drop k).filter (fun r' => decide (r.1 + 1 ≤ r'.1)) = (t.rowsFrom start).drop k := by
    apply List.filter_eq_self.mpr
    intro r' hr'
    rw [decide_eq_true_eq]
    have := hrest r (List.mem_append_right _ (List.mem_singleton_self r)) r' hr'
    omega
  calc t.rowsFrom (r.1 + 1)
      = (t.rowsFrom start).filter fun r' => decide (r.1 + 1 ≤ r'.1) := by
        rw [rowsFrom, rowsFrom, List.filter_filter]
        apply List.filter_congr
        intro r' _
        rw [← Bool.decide_and, decide_eq_decide]
        omega
    _ = (t.rowsFrom start).drop k := by
        rw [hsplit, List.filter_append, hgone, List.nil_append, ← hsplit, hkept]

theorem nodup_numbers (t : AutoTable α) : (t.rows.map Prod.fst).Nodup := by
  refine List.pairwise_map.mpr (t.sorted.imp ?_)
  intro r r' hlt heq
  omega

theorem eq_of_number_eq {t : AutoTable α} {r r' : Int × α} (h : r ∈ t.rows) (h' : r' ∈ t.rows) (heq : r.1 = r'.1) :
    r = r' := List.inj_on_of_nodup_map t.nodup_numbers h h' heq

/-- Different numbers in a range are no more than the range has. -/
theorem length_rows_le {t : AutoTable α} {n : Nat} (h : ∀ r ∈ t.rows, r.1 ≤ (n : Int)) : t.rows.length ≤ n := by
  have hsub : (t.rows.map Prod.fst).toFinset ⊆ Finset.Icc 1 (n : Int) := by
    intro i hi
    obtain ⟨r, hr, rfl⟩ := List.mem_map.mp (List.mem_toFinset.mp hi)
    have := t.bounded r hr
    exact Finset.mem_Icc.mpr ⟨by omega, h r hr⟩
  have hcard := Finset.card_le_card hsub
  rw [List.toFinset_card_of_nodup t.nodup_numbers, List.length_map, Int.card_Icc] at hcard
  omega

end AutoTable

end Perception.Lib
