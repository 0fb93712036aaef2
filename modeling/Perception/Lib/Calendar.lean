/-!
# Calendar times

The broken-down time of a count of seconds: the years and the months are walked along, each with
its own length, and what is left is the place in the last of them. Walks of two counts end in the
order of the counts.
-/
namespace Perception.Lib.Calendar

set_option autoImplicit false

/-- From part `i` on, the part that place `n` is in and the place in that part, for parts of
length `len`; at most `fuel` parts are passed. -/
def walk (len : Nat → Nat) : Nat → Nat → Nat → Nat × Nat
  | 0, i, n => (i, n)
  | fuel + 1, i, n => if n < len i then (i, n) else walk len fuel (i + 1) (n - len i)

/-- The length of `fuel` parts from part `i` on. -/
def total (len : Nat → Nat) : Nat → Nat → Nat
  | 0, _ => 0
  | fuel + 1, i => len i + total len fuel (i + 1)

variable {len : Nat → Nat}

theorem le_walk (fuel i n : Nat) : i ≤ (walk len fuel i n).1 := by
  induction fuel generalizing i n with
  | zero => exact Nat.le_refl i
  | succ fuel ih =>
    rw [walk]
    split
    · exact Nat.le_refl i
    · exact Nat.le_trans (Nat.le_succ i) (ih (i + 1) _)

theorem walk_lt {fuel i n : Nat} (h : n < total len fuel i) : (walk len fuel i n).2 < len (walk len fuel i n).1 := by
  induction fuel generalizing i n with
  | zero => exact absurd h (Nat.not_lt_zero n)
  | succ fuel ih =>
    rw [total] at h
    rw [walk]
    split
    · next hlt => exact hlt
    · next hge => exact ih (by omega)

theorem walk_fst_lt {fuel i n : Nat} (h : n < total len fuel i) : (walk len fuel i n).1 < i + fuel := by
  induction fuel generalizing i n with
  | zero => exact absurd h (Nat.not_lt_zero n)
  | succ fuel ih =>
    rw [total] at h
    rw [walk]
    split
    · omega
    · next hge =>
      have hnext := ih (i := i + 1) (n := n - len i) (by omega)
      omega

/-- The walk of the larger count ends in a later part, or in the same part and further on. -/
theorem walk_le {fuel fuel' i n n' : Nat} (h : n < total len fuel i) (h' : n' < total len fuel' i) (hle : n ≤ n') :
    (walk len fuel i n).1 < (walk len fuel' i n').1 ∨
      (walk len fuel i n).1 = (walk len fuel' i n').1 ∧
        (walk len fuel i n).2 + (n' - n) = (walk len fuel' i n').2 := by
  induction fuel generalizing fuel' i n n' with
  | zero => exact absurd h (Nat.not_lt_zero n)
  | succ fuel ih =>
    cases fuel' with
    | zero => exact absurd h' (Nat.not_lt_zero n')
    | succ fuel' =>
      rw [total] at h h'
      rw [walk, walk]
      by_cases hn' : n' < len i
      · have hn : n < len i := by omega
        rw [if_pos hn, if_pos hn']
        exact .inr ⟨rfl, by omega⟩
      · rw [if_neg hn']
        by_cases hn : n < len i
        · rw [if_pos hn]
          exact .inl (le_walk fuel' (i + 1) _)
        · rw [if_neg hn]
          have hrest : n - len i < total len fuel (i + 1) := by omega
          have hrest' : n' - len i < total len fuel' (i + 1) := by omega
          have hnext := ih hrest hrest' (by omega)
          have hdiff : n' - len i - (n - len i) = n' - n := by omega
          rwa [hdiff] at hnext

theorem le_total (hpos : ∀ i, 0 < len i) (fuel i : Nat) : fuel ≤ total len fuel i := by
  induction fuel generalizing i with
  | zero => exact Nat.le_refl 0
  | succ fuel ih =>
    have hfirst := hpos i
    have hrest := ih (i + 1)
    rw [total]
    omega

def isLeap (year : Nat) : Bool := year % 4 = 0 ∧ (year % 100 ≠ 0 ∨ year % 400 = 0)

def monthLength (year month : Nat) : Nat :=
  match month with
  | 1 => if isLeap year then 29 else 28
  | 3 | 5 | 8 | 10 => 30
  | _ => 31

def yearLength (year : Nat) : Nat := if isLeap year then 366 else 365

theorem yearLength_pos (year : Nat) : 0 < yearLength year := by
  unfold yearLength
  split <;> decide

theorem total_monthLength (year : Nat) : total (monthLength year) 12 0 = yearLength year := by
  unfold yearLength
  cases hleap : isLeap year <;> simp [total, monthLength, hleap]

/-- Months count from 0 and years from 1900. -/
structure Tm where
  tm_year : Nat
  tm_mon : Nat
  tm_mday : Nat
  tm_hour : Nat
  tm_min : Nat
  tm_sec : Nat
deriving DecidableEq

structure Tm.Valid (tm : Tm) : Prop where
  mon : tm.tm_mon < 12
  mday_pos : 0 < tm.tm_mday
  mday : tm.tm_mday ≤ monthLength (tm.tm_year + 1900) tm.tm_mon
  hour : tm.tm_hour < 24
  min : tm.tm_min < 60
  sec : tm.tm_sec < 60

/-- The year of a day, from 1969 on, and the day in that year. -/
def yearOf (day : Nat) : Nat × Nat := walk yearLength (day + 1) 1969 day

/-- The time `secs` seconds after the beginning of 1969. -/
def ofSeconds (secs : Nat) : Tm :=
  let (year, yday) := yearOf (secs / 86400)
  let (mon, mday) := walk (monthLength year) 12 0 yday
  { tm_year := year - 1900
    tm_mon := mon
    tm_mday := mday + 1
    tm_hour := secs % 86400 / 3600
    tm_min := secs % 3600 / 60
    tm_sec := secs % 60 }

theorem yearOf_lt (day : Nat) : (yearOf day).2 < yearLength (yearOf day).1 :=
  walk_lt (Nat.lt_of_lt_of_le (Nat.lt_succ_self day) (le_total yearLength_pos _ _))

theorem tm_year_ofSeconds (secs : Nat) : (ofSeconds secs).tm_year + 1900 = (yearOf (secs / 86400)).1 := by
  have hbase : 1969 ≤ (yearOf (secs / 86400)).1 := le_walk _ _ _
  change (yearOf (secs / 86400)).1 - 1900 + 1900 = _
  omega

theorem valid_ofSeconds (secs : Nat) : (ofSeconds secs).Valid := by
  have hyday : (yearOf (secs / 86400)).2 < total (monthLength (yearOf (secs / 86400)).1) 12 0 := by
    rw [total_monthLength]
    exact yearOf_lt _
  have hmon := walk_fst_lt hyday
  have hmday := walk_lt hyday
  refine ⟨Nat.lt_of_lt_of_eq hmon (Nat.zero_add 12), Nat.succ_pos _, ?_, ?_, ?_, ?_⟩
  · rw [tm_year_ofSeconds]
    exact hmday
  · change secs % 86400 / 3600 < 24
    omega
  · change secs % 3600 / 60 < 60
    omega
  · exact Nat.mod_lt _ (by decide)

/-- A later day has a later date. -/
theorem date_lt {secs secs' : Nat} (h : secs / 86400 < secs' / 86400) :
    (ofSeconds secs).tm_year < (ofSeconds secs').tm_year ∨ (ofSeconds secs).tm_year = (ofSeconds secs').tm_year ∧
      ((ofSeconds secs).tm_mon < (ofSeconds secs').tm_mon ∨ (ofSeconds secs).tm_mon = (ofSeconds secs').tm_mon ∧
        (ofSeconds secs).tm_mday < (ofSeconds secs').tm_mday) := by
  have hfuel (day : Nat) : day < total yearLength (day + 1) 1969 :=
    Nat.lt_of_lt_of_le (Nat.lt_succ_self day) (le_total yearLength_pos _ _)
  have hyear := tm_year_ofSeconds secs
  have hyear' := tm_year_ofSeconds secs'
  rcases walk_le (hfuel (secs / 86400)) (hfuel (secs' / 86400)) (Nat.le_of_lt h) with hlt | ⟨heq, hyday⟩
  · refine .inl ?_
    change (yearOf (secs / 86400)).1 < (yearOf (secs' / 86400)).1 at hlt
    omega
  · change (yearOf (secs / 86400)).1 = (yearOf (secs' / 86400)).1 at heq
    change (yearOf (secs / 86400)).2 + _ = (yearOf (secs' / 86400)).2 at hyday
    have hplace := yearOf_lt (secs / 86400)
    have hplace' := yearOf_lt (secs' / 86400)
    rw [← total_monthLength] at hplace hplace'
    rw [← heq] at hplace'
    refine .inr ⟨by omega, ?_⟩
    have hmonth := walk_le hplace hplace' (by omega)
    have hlater : (yearOf (secs' / 86400)).2 - (yearOf (secs / 86400)).2 = secs' / 86400 - secs / 86400 := by omega
    rw [hlater] at hmonth
    have hmon : (ofSeconds secs').tm_mon = (walk (monthLength (yearOf (secs / 86400)).1) 12 0 (yearOf (secs' / 86400)).2).1 := by
      rw [heq]
      rfl
    have hmday : (ofSeconds secs').tm_mday =
        (walk (monthLength (yearOf (secs / 86400)).1) 12 0 (yearOf (secs' / 86400)).2).2 + 1 := by
      rw [heq]
      rfl
    rw [hmon, hmday]
    rcases hmonth with hlt | ⟨heq, hsame⟩
    · exact .inl hlt
    · refine .inr ⟨heq, ?_⟩
      change (walk (monthLength (yearOf (secs / 86400)).1) 12 0 (yearOf (secs / 86400)).2).2 + 1 < _
      omega

/-- The same day has the same date. -/
theorem date_eq {secs secs' : Nat} (h : secs / 86400 = secs' / 86400) :
    (ofSeconds secs).tm_year = (ofSeconds secs').tm_year ∧ (ofSeconds secs).tm_mon = (ofSeconds secs').tm_mon ∧
      (ofSeconds secs).tm_mday = (ofSeconds secs').tm_mday := by
  unfold ofSeconds
  rw [h]
  exact ⟨rfl, rfl, rfl⟩

/-- The seconds of a day. -/
theorem time_ofSeconds (secs : Nat) :
    3600 * (ofSeconds secs).tm_hour + 60 * (ofSeconds secs).tm_min + (ofSeconds secs).tm_sec = secs % 86400 := by
  change 3600 * (secs % 86400 / 3600) + 60 * (secs % 3600 / 60) + secs % 60 = secs % 86400
  omega

end Perception.Lib.Calendar
