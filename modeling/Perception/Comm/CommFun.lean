import Perception.Lib.Calendar
import Perception.Lib.Printed

/-!
# Times of alerts

`GetSecondTime` adds a shift to the hour of the local time after the date was taken, so that an
hour can be 24 or more. The shift is the time zone that is read off the hours of two broken-down
times, and 8 where that is not positive.
-/
namespace Perception.Comm

set_option autoImplicit false

open Perception.Lib.Calendar
open Perception.Lib.Printed

/-- A fixed offset from UTC in seconds. -/
structure Zone where
  gmtoff : Int
  low : -12 * 3600 ≤ gmtoff
  high : gmtoff ≤ 14 * 3600

/-- The seconds from the beginning of 1969 to that of 1970. -/
def epoch : Nat := 365 * 86400

/-- The local seconds at an instant, which is in seconds from 1970 on. -/
def Zone.localSeconds (z : Zone) (t : Nat) : Nat := (z.gmtoff + t + epoch).toNat

def localtime (z : Zone) (t : Nat) : Tm := ofSeconds (z.localSeconds t)

def gmtime (t : Nat) : Tm := ofSeconds (t + epoch)

def GetTimezone (z : Zone) (time_utc : Nat) : Int :=
  let tm_local := localtime z time_utc
  let tm_gmt := gmtime time_utc
  let time_zone : Int := tm_local.tm_hour - tm_gmt.tm_hour
  if time_zone < -12 then time_zone + 24
  else if time_zone > 12 then time_zone - 24
  else time_zone

/-- What is added to the hour. -/
def shift (z : Zone) (time_utc : Nat) : Nat :=
  let s32TimeZone := GetTimezone z time_utc
  (if 0 ≥ s32TimeZone then 8 else s32TimeZone).toNat

def separators : List Char := ['-', '-', ' ', ':', ':']

/-- `%d-%02d-%02d %02d:%02d:%02d` -/
def printTime (year mon mday hour min sec : Nat) : List Char :=
  decimal year ++ fields separators [mon, mday, hour, min, sec]

/-- The clock is read twice, for the time and for the time zone. -/
def GetSecondTime (z : Zone) (tv_sec time_utc : Nat) : List Char :=
  let time_ptr := localtime z tv_sec
  printTime (time_ptr.tm_year + 1900) (time_ptr.tm_mon + 1) time_ptr.tm_mday (time_ptr.tm_hour + shift z time_utc)
    time_ptr.tm_min time_ptr.tm_sec

/-- A text is the time of a calendar. -/
def ValidTime (s : List Char) : Prop :=
  ∃ tm : Tm, tm.Valid ∧
    s = printTime (tm.tm_year + 1900) (tm.tm_mon + 1) tm.tm_mday tm.tm_hour tm.tm_min tm.tm_sec

/-- The texts of two instants are times of a calendar, and in order. -/
def InOrder (z : Zone) (t₁ t₂ : Nat) : Prop :=
  ValidTime (GetSecondTime z t₁ t₁) ∧ ValidTime (GetSecondTime z t₂ t₂) ∧
    TextLE (GetSecondTime z t₁ t₁) (GetSecondTime z t₂ t₂)

theorem mday_lt {tm : Tm} (h : tm.Valid) : tm.tm_mday < 32 := by
  have hlength : monthLength (tm.tm_year + 1900) tm.tm_mon ≤ 31 := by
    unfold monthLength
    split
    · split <;> decide
    all_goals decide
  have hmday := h.mday
  omega

theorem GetTimezone_le (z : Zone) (t : Nat) : GetTimezone z t ≤ 12 := by
  have hlocal : (localtime z t).tm_hour < 24 := (valid_ofSeconds _).hour
  unfold GetTimezone
  dsimp only
  split
  · omega
  · split <;> omega

theorem shift_le (z : Zone) (t : Nat) : shift z t ≤ 12 := by
  have hzone := GetTimezone_le z t
  unfold shift
  dsimp only
  split
  · decide
  · omega

theorem fields_lt {tm : Tm} (h : tm.Valid) {hour : Nat} (hhour : hour < 100) :
    ∀ n ∈ [tm.tm_mon + 1, tm.tm_mday, hour, tm.tm_min, tm.tm_sec], n < 100 := by
  have hmon := h.mon
  have hmday := mday_lt h
  have hmin := h.min
  have hsec := h.sec
  simp only [List.forall_mem_cons]
  exact ⟨by omega, by omega, hhour, by omega, by omega, nofun⟩

theorem notMem_decimal (n : Nat) : '-' ∉ decimal n := fun h => absurd (isDigit_of_mem_decimal h) (by decide)

/-- The year is read up to the sign behind it, and then the fields. -/
theorem printTime_inj {tm tm' : Tm} (h : tm.Valid) (h' : tm'.Valid) {hour hour' : Nat} (hhour : hour < 100) (hhour' : hour' < 100)
    (heq : printTime (tm.tm_year + 1900) (tm.tm_mon + 1) tm.tm_mday hour tm.tm_min tm.tm_sec =
      printTime (tm'.tm_year + 1900) (tm'.tm_mon + 1) tm'.tm_mday hour' tm'.tm_min tm'.tm_sec) : hour = hour' := by
  obtain ⟨hyear, -⟩ := terminated_inj (notMem_decimal _) (notMem_decimal _) heq
  have hfields : fields separators [tm.tm_mon + 1, tm.tm_mday, hour, tm.tm_min, tm.tm_sec] =
      fields separators [tm'.tm_mon + 1, tm'.tm_mday, hour', tm'.tm_min, tm'.tm_sec] := by
    unfold printTime at heq
    rw [hyear] at heq
    exact List.append_cancel_left heq
  have hnumbers := fields_inj separators (fields_lt h hhour) (fields_lt h' hhour') rfl rfl hfields
  simp only [List.cons.injEq] at hnumbers
  exact hnumbers.2.2.1

/-- A time is of the calendar when its hour is. -/
theorem validTime_iff (z : Zone) (t : Nat) : ValidTime (GetSecondTime z t t) ↔ (localtime z t).tm_hour + shift z t < 24 := by
  have hvalid : (localtime z t).Valid := valid_ofSeconds _
  have hshift := shift_le z t
  constructor
  · rintro ⟨tm, htm, heq⟩
    have hhour := hvalid.hour
    have hhour' := htm.hour
    rw [printTime_inj hvalid htm (by omega) (by omega) heq]
    exact hhour'
  · intro hlt
    exact ⟨{ localtime z t with tm_hour := (localtime z t).tm_hour + shift z t },
      ⟨hvalid.mon, hvalid.mday_pos, hvalid.mday, hlt, hvalid.min, hvalid.sec⟩, rfl⟩

/-- The numerals of two years are in order, each with the sign behind it. -/
def YearsInOrder (year₁ year₂ : Nat) : Prop := TextLE (decimal year₁ ++ ['-']) (decimal year₂ ++ ['-'])

theorem textLE_printTime {tm tm' : Tm} (h : tm.Valid) (h' : tm'.Valid) {hour hour' : Nat} (hhour : hour < 100) (hhour' : hour' < 100) :
    TextLE (printTime (tm.tm_year + 1900) (tm.tm_mon + 1) tm.tm_mday hour tm.tm_min tm.tm_sec)
        (printTime (tm'.tm_year + 1900) (tm'.tm_mon + 1) tm'.tm_mday hour' tm'.tm_min tm'.tm_sec) ↔
      (tm.tm_year = tm'.tm_year → LexLE [tm.tm_mon + 1, tm.tm_mday, hour, tm.tm_min, tm.tm_sec]
        [tm'.tm_mon + 1, tm'.tm_mday, hour', tm'.tm_min, tm'.tm_sec]) ∧
      (tm.tm_year ≠ tm'.tm_year → YearsInOrder (tm.tm_year + 1900) (tm'.tm_year + 1900)) := by
  by_cases hyear : tm.tm_year = tm'.tm_year
  · have hfields := textLE_fields separators (fields_lt h hhour) (fields_lt h' hhour') rfl rfl
    unfold TextLE at hfields
    unfold TextLE printTime
    rw [hyear, List.map_append, List.map_append, lexLE_append rfl, hfields]
    exact ⟨fun hle => ⟨fun _ => hle.2 rfl, fun hne => absurd rfl hne⟩, fun hle => ⟨lexLE_refl _, fun _ => hle.1 rfl⟩⟩
  · have hcode (n : Nat) : '-'.toNat ∉ (decimal n).map Char.toNat := by
      intro hmem
      obtain ⟨c, hc, hcode⟩ := List.mem_map.mp hmem
      obtain rfl : c = '-' := Char.toNat_inj.mp hcode
      exact notMem_decimal n hc
    have hne : (decimal (tm.tm_year + 1900)).map Char.toNat ≠ (decimal (tm'.tm_year + 1900)).map Char.toNat := by
      intro heq
      have hnumeral := (List.map_inj_right fun c c' => Char.toNat_inj.mp).mp heq
      exact hyear (Nat.add_right_cancel (decimal_inj hnumeral))
    unfold YearsInOrder TextLE printTime
    rw [List.map_append, List.map_append, List.map_append, List.map_append]
    apply Iff.trans (lexLE_terminated (hcode _) (hcode _) hne)
    exact ⟨fun hle => ⟨fun heq => absurd heq hyear, fun _ => hle⟩, fun hle => hle.2 hyear⟩

theorem local_eq (z : Zone) (t : Nat) : (z.localSeconds t : Int) = z.gmtoff + t + epoch := by
  have hlow := z.low
  unfold Zone.localSeconds epoch
  omega

/-- On one day the order is that of the shifted times. -/
theorem lexLE_same_day {z : Zone} {t₁ t₂ hour₁ hour₂ : Nat} (hday : z.localSeconds t₁ / 86400 = z.localSeconds t₂ / 86400)
    (h₁ : hour₁ = (localtime z t₁).tm_hour + shift z t₁) (h₂ : hour₂ = (localtime z t₂).tm_hour + shift z t₂) :
    LexLE [(localtime z t₁).tm_mon + 1, (localtime z t₁).tm_mday, hour₁, (localtime z t₁).tm_min, (localtime z t₁).tm_sec]
        [(localtime z t₂).tm_mon + 1, (localtime z t₂).tm_mday, hour₂, (localtime z t₂).tm_min, (localtime z t₂).tm_sec] ↔
      t₁ + 3600 * shift z t₁ ≤ t₂ + 3600 * shift z t₂ := by
  obtain ⟨-, hmon, hmday⟩ := date_eq hday
  have htime₁ := time_ofSeconds (z.localSeconds t₁)
  have htime₂ := time_ofSeconds (z.localSeconds t₂)
  have hvalid₁ := valid_ofSeconds (z.localSeconds t₁)
  have hvalid₂ := valid_ofSeconds (z.localSeconds t₂)
  have hmin₁ := hvalid₁.min
  have hmin₂ := hvalid₂.min
  have hsec₁ := hvalid₁.sec
  have hsec₂ := hvalid₂.sec
  have hlocal₁ := local_eq z t₁
  have hlocal₂ := local_eq z t₂
  unfold localtime at h₁ h₂ ⊢
  simp only [LexLE, hmon, hmday, Nat.lt_irrefl, false_or, true_and, and_true]
  omega

/-- The texts of two instants are times of a calendar in order exactly when no shift leaves the
day, the shifted times of one day are in order, and so are the numerals of different years. -/
theorem inOrder_iff (z : Zone) (t₁ t₂ : Nat) (h : t₁ ≤ t₂) :
    InOrder z t₁ t₂ ↔
      (localtime z t₁).tm_hour + shift z t₁ < 24 ∧ (localtime z t₂).tm_hour + shift z t₂ < 24 ∧
        (z.localSeconds t₁ / 86400 = z.localSeconds t₂ / 86400 → t₁ + 3600 * shift z t₁ ≤ t₂ + 3600 * shift z t₂) ∧
        ((localtime z t₁).tm_year ≠ (localtime z t₂).tm_year →
          YearsInOrder ((localtime z t₁).tm_year + 1900) ((localtime z t₂).tm_year + 1900)) := by
  unfold InOrder
  rw [validTime_iff, validTime_iff]
  refine and_congr_right fun h₁ => and_congr_right fun h₂ => ?_
  have hvalid₁ : (localtime z t₁).Valid := valid_ofSeconds _
  have hvalid₂ : (localtime z t₂).Valid := valid_ofSeconds _
  refine (textLE_printTime hvalid₁ hvalid₂ (by omega) (by omega)).trans (and_congr_left fun _ => ?_)
  by_cases hday : z.localSeconds t₁ / 86400 = z.localSeconds t₂ / 86400
  · have hyear : (localtime z t₁).tm_year = (localtime z t₂).tm_year := (date_eq hday).1
    rw [lexLE_same_day hday rfl rfl]
    exact ⟨fun hle _ => hle hyear, fun hle _ => hle hday⟩
  · have hlocal₁ := local_eq z t₁
    have hlocal₂ := local_eq z t₂
    refine iff_of_true (fun hyear => ?_) (fun heq => absurd heq hday)
    rcases date_lt (by omega : z.localSeconds t₁ / 86400 < z.localSeconds t₂ / 86400) with hlt | ⟨-, hdate⟩
    · exact absurd hyear (Nat.ne_of_lt hlt)
    · change (localtime z t₁).tm_mon < (localtime z t₂).tm_mon ∨ (localtime z t₁).tm_mon = (localtime z t₂).tm_mon ∧
        (localtime z t₁).tm_mday < (localtime z t₂).tm_mday at hdate
      simp only [LexLE]
      omega

def utc : Zone := ⟨0, by decide, by decide⟩

theorem inOrder_utc : 0 ≤ 3600 ∧ InOrder utc 0 3600 :=
  ⟨by decide, (inOrder_iff utc 0 3600 (by decide)).mpr
    ⟨by decide +kernel, by decide +kernel, by decide +kernel, fun hne => absurd (by decide +kernel) hne⟩⟩

/-- At 16 o'clock of UTC the printed hour is 24. -/
theorem not_inOrder_utc : ¬∀ (z : Zone) (t₁ t₂ : Nat), t₁ ≤ t₂ → InOrder z t₁ t₂ := by
  intro h
  have hvalid := (validTime_iff utc 57600).mp (h utc 57600 57600 (Nat.le_refl _)).1
  have hhour : (localtime utc 57600).tm_hour + shift utc 57600 = 24 := by decide +kernel
  omega

end Perception.Comm
