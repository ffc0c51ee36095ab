import Llmctl.Text.Digits

/-!
# Instants of UTC

An instant by its calendar fields, as `DateTime<Utc>` keeps it, and its place in time. In
a leap second the nanoseconds go on past those of second 59.
-/

namespace Calendar

def isLeap (year : Nat) : Bool := year % 4 == 0 && (year % 100 != 0 || year % 400 == 0)

def leapDay (year : Nat) : Nat := if isLeap year then 1 else 0

def daysInMonth (year : Nat) : Nat → Nat
  | 2 => 28 + leapDay year
  | 4 | 6 | 9 | 11 => 30
  | _ => 31

structure Instant where
  year : Nat
  month : Nat
  day : Nat
  hour : Nat
  minute : Nat
  second : Nat
  nanosecond : Nat
  year_lt : year < 10000
  month_mem : 1 ≤ month ∧ month ≤ 12
  day_mem : 1 ≤ day ∧ day ≤ daysInMonth year month
  time_lt : hour < 24 ∧ minute < 60 ∧ second < 60
  nanosecond_lt : nanosecond < 10 ^ 9 ∨ second = 59 ∧ nanosecond < 2 * 10 ^ 9
  deriving DecidableEq, Repr

/-! ## The place in time -/

/-- The days of the years before. -/
def yearStart : Nat → Nat
  | 0 => 0
  | year + 1 => yearStart year + 365 + leapDay year

/-- The days of the months before. -/
def monthStart (year month : Nat) : Nat := ((List.range (month - 1)).map fun m => daysInMonth year (m + 1)).sum

namespace Instant

def dayNumber (t : Instant) : Nat := yearStart t.year + monthStart t.year t.month + t.day

/-- The seconds since the beginning of the calendar, without leap seconds. -/
def seconds (t : Instant) : Nat := 86400 * t.dayNumber + 3600 * t.hour + 60 * t.minute + t.second

instance : LT Instant where
  lt t u := t.seconds < u.seconds ∨ t.seconds = u.seconds ∧ t.nanosecond < u.nanosecond

instance : LE Instant where
  le t u := ¬ u < t

instance : DecidableLT Instant := fun t u =>
  inferInstanceAs (Decidable (t.seconds < u.seconds ∨ t.seconds = u.seconds ∧ t.nanosecond < u.nanosecond))

instance : DecidableLE Instant := fun t u => inferInstanceAs (Decidable (¬ u < t))

theorem lt_def {t u : Instant} : t < u ↔ t.seconds < u.seconds ∨ t.seconds = u.seconds ∧ t.nanosecond < u.nanosecond := Iff.rfl

end Instant

/-! ## The order of the fields -/

theorem yearStart_lt {year year' : Nat} (h : year < year') : yearStart year + 365 + leapDay year ≤ yearStart year' := by
  induction h with
  | refl => exact Nat.le_refl _
  | @step year' h ih =>
    show _ ≤ yearStart year' + 365 + leapDay year'
    omega

theorem monthStart_succ (year : Nat) {month : Nat} (h : 1 ≤ month) :
    monthStart year (month + 1) = monthStart year month + daysInMonth year month := by
  obtain ⟨m, rfl⟩ := Nat.exists_eq_add_of_le' h
  simp [monthStart, List.range_succ]

theorem monthStart_lt (year : Nat) {month month' : Nat} (hpos : 1 ≤ month) (h : month < month') :
    monthStart year month + daysInMonth year month ≤ monthStart year month' := by
  rw [← monthStart_succ year hpos]
  induction h with
  | refl => exact Nat.le_refl _
  | @step month' h ih =>
    rw [monthStart_succ year (Nat.le_trans hpos (Nat.le_of_succ_le h))]
    exact Nat.le_trans ih (Nat.le_add_right _ _)

/-- No day of a year is past its end. -/
theorem monthStart_le (year : Nat) {month : Nat} (hpos : 1 ≤ month) (h : month ≤ 12) :
    monthStart year month + daysInMonth year month ≤ 365 + leapDay year := by
  have hyear : monthStart year 13 = 365 + leapDay year := by
    simp [monthStart, List.range_succ, daysInMonth]
    omega
  rw [← hyear]
  exact monthStart_lt year hpos (by omega)

namespace Instant

/-- The date of one instant is before that of another. -/
def DateLt (t u : Instant) : Prop :=
  t.year < u.year ∨ t.year = u.year ∧ (t.month < u.month ∨ t.month = u.month ∧ t.day < u.day)

theorem dayNumber_lt {t u : Instant} (h : t.DateLt u) : t.dayNumber < u.dayNumber := by
  have ht := monthStart_le t.year t.month_mem.1 t.month_mem.2
  have hday := t.day_mem.2
  have hu := u.day_mem.1
  unfold dayNumber
  rcases h with h | ⟨hy, h | ⟨hm, h⟩⟩
  · have := yearStart_lt h
    omega
  · have := monthStart_lt t.year t.month_mem.1 h
    rw [← hy]
    omega
  · rw [← hy, ← hm]
    omega

theorem dateLt_trichotomy (t u : Instant) :
    t.DateLt u ∨ (t.year = u.year ∧ t.month = u.month ∧ t.day = u.day) ∨ u.DateLt t := by
  unfold DateLt
  omega

/-- Time goes by the fields, from the year on. -/
theorem lt_iff (t u : Instant) : t < u ↔ t.DateLt u ∨ (t.year = u.year ∧ t.month = u.month ∧ t.day = u.day) ∧
    (t.hour < u.hour ∨ t.hour = u.hour ∧ (t.minute < u.minute ∨ t.minute = u.minute ∧
      (t.second < u.second ∨ t.second = u.second ∧ t.nanosecond < u.nanosecond))) := by
  have ht := t.time_lt
  have hu := u.time_lt
  rw [lt_def]
  unfold seconds
  rcases dateLt_trichotomy t u with h | ⟨hy, hm, hd⟩ | h
  · have := dayNumber_lt h
    exact iff_of_true (Or.inl (by omega)) (Or.inl h)
  · have hnot : ¬ t.DateLt u := by
      unfold DateLt
      omega
    have hday : t.dayNumber = u.dayNumber := by
      unfold dayNumber
      rw [hy, hm, hd]
    simp only [hnot, false_or, hy, hm, hd, true_and, and_self]
    omega
  · have := dayNumber_lt h
    have hnot : ¬ t.DateLt u ∧ ¬ (t.year = u.year ∧ t.month = u.month ∧ t.day = u.day) := by
      unfold DateLt at *
      omega
    refine iff_of_false (by omega) ?_
    rintro (h' | ⟨h', -⟩)
    · exact hnot.1 h'
    · exact hnot.2 h'

theorem lt_trichotomy (t u : Instant) : t < u ∨ t = u ∨ u < t := by
  rw [lt_iff t u, lt_iff u t]
  unfold DateLt
  cases t
  cases u
  simp only [mk.injEq]
  omega

end Instant

end Calendar
