import Llmctl.Reporting.Months
import Llmctl.Store.TimesSound

/-!
# Months share time out

The windows of the months follow each other without a gap, up to the last month of the
calendar. The texts of the bounds keep them apart as long as both have four digits for the
year: December 9999 ends with a text that sorts before it begins.
-/

namespace Calendar

open Text

/-! ## Days -/

theorem isLeap_mod (year : Nat) : isLeap (year % 400) = isLeap year := by
  simp [isLeap, Nat.mod_mod_of_dvd year (show 4 ∣ 400 by decide), Nat.mod_mod_of_dvd year (show 100 ∣ 400 by decide)]

theorem daysOfMonth_natCast (year month : Nat) : daysOfMonth year month = daysInMonth year month := by
  have hmod : ((year : Int) % 400).toNat = year % 400 := by omega
  unfold daysOfMonth daysInMonth leapDay
  rw [hmod, isLeap_mod]

theorem one_le_daysOfMonth (year : Int) (month : Nat) : 1 ≤ daysOfMonth year month := by
  unfold daysOfMonth daysInMonth
  split <;> omega

/-! ## The first instant of a month -/

namespace DateTimeUtc

structure IsFirst (t : DateTimeUtc) (year : Int) (month : Nat) : Prop where
  year : t.year = year
  month : t.month = month
  day : t.day = 1
  hour : t.hour = 0
  minute : t.minute = 0
  second : t.second = 0
  nanosecond : t.nanosecond = 0

theorem IsFirst.eq {t u : DateTimeUtc} {year : Int} {month : Nat} (ht : t.IsFirst year month) (hu : u.IsFirst year month) :
    t = u := by
  ext
  · rw [ht.year, hu.year]
  · rw [ht.month, hu.month]
  · rw [ht.day, hu.day]
  · rw [ht.hour, hu.hour]
  · rw [ht.minute, hu.minute]
  · rw [ht.second, hu.second]
  · rw [ht.nanosecond, hu.nanosecond]

theorem exists_first {year : Int} {month : Nat} (hyear : minYear ≤ year ∧ year ≤ maxYear) (hmonth : 1 ≤ month ∧ month ≤ 12) :
    ∃ t, withYmdAndHms year month 1 0 0 0 = some t ∧ t.IsFirst year month := by
  have hday := one_le_daysOfMonth year month
  refine ⟨_, dif_pos ⟨hyear, hmonth, ⟨Nat.le_refl 1, hday⟩, by decide⟩, ?_⟩
  exact ⟨rfl, rfl, rfl, rfl, rfl, rfl, rfl⟩

theorem withYmdAndHms_eq_none {year : Int} {month : Nat} (hyear : ¬ (minYear ≤ year ∧ year ≤ maxYear)) :
    withYmdAndHms year month 1 0 0 0 = none := dif_neg fun h => hyear h.1

/-- Months are counted on from year to year. -/
def monthIndex (t : DateTimeUtc) : Int := 12 * t.year + t.month

theorem lt_first_iff {f : DateTimeUtc} {year : Int} {month : Nat} (hf : f.IsFirst year month) (t : DateTimeUtc) :
    t < f ↔ t.monthIndex < f.monthIndex := by
  have ht := t.month_mem
  have hf' := f.month_mem
  have hday := t.day_mem
  show t.year < f.year ∨ _ ↔ _
  rw [hf.day, hf.hour, hf.minute, hf.second, hf.nanosecond]
  unfold monthIndex
  omega

end DateTimeUtc

end Calendar

namespace Llmctl

open Calendar

/-! ## Windows -/

def nextMonth (year : Int) (month : Nat) : Int × Nat := if month = 12 then (year + 1, 1) else (year, month + 1)

/-- The months of the calendar but the last one. -/
structure HasBounds (year : Int) (month : Nat) : Prop where
  year_mem : minYear ≤ year ∧ year ≤ maxYear
  month_mem : 1 ≤ month ∧ month ≤ 12
  not_last : ¬ (year = maxYear ∧ month = 12)

theorem nextMonth_mem {year : Int} {month : Nat} (h : HasBounds year month) :
    (minYear ≤ (nextMonth year month).1 ∧ (nextMonth year month).1 ≤ maxYear) ∧
      1 ≤ (nextMonth year month).2 ∧ (nextMonth year month).2 ≤ 12 := by
  obtain ⟨hyear, hmonth, hlast⟩ := h
  unfold nextMonth
  split
  · exact ⟨⟨by omega, by omega⟩, (by decide : 1 ≤ 1 ∧ 1 ≤ 12)⟩
  · exact ⟨hyear, by omega⟩

theorem monthBounds_ok {year : Int} {month : Nat} (h : HasBounds year month) : ∃ f u, monthBounds year month = .ok (f, u) ∧
    f.IsFirst year month ∧ u.IsFirst (nextMonth year month).1 (nextMonth year month).2 := by
  obtain ⟨f, hf, hfirst⟩ := DateTimeUtc.exists_first h.year_mem h.month_mem
  obtain ⟨hyear, hmonth⟩ := nextMonth_mem h
  obtain ⟨u, hu, hnext⟩ := DateTimeUtc.exists_first hyear hmonth
  refine ⟨f, u, ?_, hfirst, hnext⟩
  unfold nextMonth at hu
  simp only [monthBounds, h.month_mem, and_self, not_true_eq_false, if_false, hf, hu]

theorem hasBounds_of_ok {year : Int} {month : Nat} {w : DateTimeUtc × DateTimeUtc} (h : monthBounds year month = .ok w) :
    HasBounds year month := by
  unfold monthBounds at h
  split at h
  · cases h
  rename_i hmonth
  replace hmonth : 1 ≤ month ∧ month ≤ 12 := not_not.mp hmonth
  have hyear : minYear ≤ year ∧ year ≤ maxYear := by
    by_contra hyear
    rw [DateTimeUtc.withYmdAndHms_eq_none hyear] at h
    cases h
  refine ⟨hyear, hmonth, ?_⟩
  rintro ⟨rfl, rfl⟩
  obtain ⟨f, hf, -⟩ := DateTimeUtc.exists_first hyear hmonth
  rw [hf] at h
  simp only [if_true] at h
  rw [DateTimeUtc.withYmdAndHms_eq_none (by decide)] at h
  cases h

/-- A window has the instants of its month. -/
theorem mem_window_iff {year : Int} {month : Nat} {f u : DateTimeUtc} (h : monthBounds year month = .ok (f, u))
    (t : DateTimeUtc) : f ≤ t ∧ t < u ↔ t.year = year ∧ t.month = month := by
  obtain ⟨f', u', hok, hf, hu⟩ := monthBounds_ok (hasBounds_of_ok h)
  obtain ⟨rfl, rfl⟩ : f = f' ∧ u = u' := by
    rw [h] at hok
    cases hok
    exact ⟨rfl, rfl⟩
  have ht := t.month_mem
  have hmonth := (hasBounds_of_ok h).month_mem
  have hnext : u.monthIndex = f.monthIndex + 1 := by
    unfold DateTimeUtc.monthIndex
    rw [hf.year, hf.month, hu.year, hu.month]
    unfold nextMonth
    split <;> omega
  have hle : f ≤ t ↔ ¬ t.monthIndex < f.monthIndex := not_congr (DateTimeUtc.lt_first_iff hf t)
  rw [hle, DateTimeUtc.lt_first_iff hu, hnext]
  unfold DateTimeUtc.monthIndex
  rw [hf.year, hf.month]
  omega

/-- A window begins before it ends, and the next one begins there. -/
theorem windows_meet {year : Int} {month : Nat} {f u : DateTimeUtc} (h : monthBounds year month = .ok (f, u)) :
    f < u ∧ ∀ f' u', monthBounds (nextMonth year month).1 (nextMonth year month).2 = .ok (f', u') → u = f' := by
  have hbounds := hasBounds_of_ok h
  obtain ⟨f₀, u₀, hok, hf, hu⟩ := monthBounds_ok hbounds
  rw [h] at hok
  cases hok
  have hfirst : f.year = year ∧ f.month = month := ⟨hf.year, hf.month⟩
  refine ⟨((mem_window_iff h f).mpr hfirst).2, fun f' u' hnext => ?_⟩
  obtain ⟨f₁, u₁, hok, hf₁, -⟩ := monthBounds_ok (hasBounds_of_ok hnext)
  rw [hnext] at hok
  cases hok
  exact hu.eq hf₁

theorem existsUnique_month {t : DateTimeUtc} (h : ¬ (t.year = maxYear ∧ t.month = 12)) :
    ∃! m : Int × Nat, ∃ f u, monthBounds m.1 m.2 = .ok (f, u) ∧ f ≤ t ∧ t < u := by
  obtain ⟨f, u, hok, -⟩ := monthBounds_ok ⟨t.year_mem, t.month_mem, h⟩
  refine ⟨(t.year, t.month), ⟨f, u, hok, (mem_window_iff hok t).mpr ⟨rfl, rfl⟩⟩, ?_⟩
  rintro ⟨year, month⟩ ⟨f', u', hok', hmem⟩
  obtain ⟨hyear, hmonth⟩ := (mem_window_iff hok' t).mp hmem
  exact Prod.ext hyear.symm hmonth.symm

theorem not_exists_month {t : DateTimeUtc} (h : t.year = maxYear ∧ t.month = 12) (m : Int × Nat) :
    ¬ ∃ f u, monthBounds m.1 m.2 = .ok (f, u) ∧ f ≤ t ∧ t < u := by
  rintro ⟨f, u, hok, hmem⟩
  obtain ⟨hyear, hmonth⟩ := (mem_window_iff hok t).mp hmem
  exact (hasBounds_of_ok hok).not_last ⟨hyear ▸ h.1, hmonth ▸ h.2⟩

theorem currentMonthBounds_mem {now f u : DateTimeUtc} (h : currentMonthBounds now = .ok (f, u)) : f ≤ now ∧ now < u :=
  (mem_window_iff h now).mpr ⟨rfl, rfl⟩

end Llmctl

/-! ## Years of four digits -/

namespace Calendar

open Text

def Instant.toUtc (t : Instant) : DateTimeUtc where
  year := t.year
  month := t.month
  day := t.day
  hour := t.hour
  minute := t.minute
  second := t.second
  nanosecond := t.nanosecond
  year_mem := by
    have h := t.year_lt
    unfold minYear maxYear
    omega
  month_mem := t.month_mem
  day_mem := by
    rw [daysOfMonth_natCast]
    exact t.day_mem
  time_lt := t.time_lt
  nanosecond_lt := t.nanosecond_lt

theorem exists_toUtc {t : DateTimeUtc} (h : 0 ≤ t.year ∧ t.year ≤ 9999) : ∃ i : Instant, i.toUtc = t := by
  have hyear : ((t.year.toNat : Nat) : Int) = t.year := Int.toNat_of_nonneg h.1
  refine ⟨⟨t.year.toNat, t.month, t.day, t.hour, t.minute, t.second, t.nanosecond, by omega, t.month_mem, ?_, t.time_lt,
    t.nanosecond_lt⟩, ?_⟩
  · rw [← daysOfMonth_natCast, hyear]
    exact t.day_mem
  · ext
    · exact hyear
    all_goals rfl

theorem toUtc_lt_iff (t u : Instant) : t.toUtc < u.toUtc ↔ t < u := by
  rw [Instant.lt_iff]
  show (t.year : Int) < u.year ∨ (t.year : Int) = u.year ∧ _ ↔ _
  unfold Instant.DateLt
  simp only [Instant.toUtc]
  omega

theorem fields_toUtc (t : Instant) (rest : List Char) : t.toUtc.fields rest = t.fields rest := by
  have h := t.year_lt
  have hyear : t.toUtc.writtenYear = pad 4 t.year := if_pos ⟨by exact Int.natCast_nonneg _, by show (t.year : Int) ≤ 9999; omega⟩
  unfold DateTimeUtc.fields Instant.fields
  rw [hyear]
  rfl

theorem zeroPad_eq_cons (w : Nat) (n : Int) : ∃ c s, zeroPad true w n = c :: s ∧ (c = '+' ∨ c = '-') := by
  unfold zeroPad
  split
  · exact ⟨_, _, rfl, .inr rfl⟩
  · exact ⟨_, _, rfl, .inl rfl⟩

section
variable {toRfc3339 : DateTimeUtc → String} (h : WritesRfc3339 toRfc3339)
include h

theorem WritesRfc3339.toList (t : DateTimeUtc) : (toRfc3339 t).toList = t.fields (fraction t.subsecond ++ utcOffset) := by
  rw [h.writes, String.toList_ofList]

/-- Years of four digits are written as in the store. -/
theorem WritesRfc3339.rfc3339 : Rfc3339 (fun t => toRfc3339 t.toUtc) readRfc3339 where
  writes t := by
    rw [h.writes, fields_toUtc]
    rfl
  reads := rfc3339_written.reads

/-- A sign sorts before a digit. -/
theorem WritesRfc3339.not_lt {u : DateTimeUtc} (hu : ¬ (0 ≤ u.year ∧ u.year ≤ 9999)) (t : Instant) :
    ¬ toRfc3339 t.toUtc < toRfc3339 u := by
  have hdigit : ∀ d < 10, '+' < Nat.digitChar d ∧ '-' < Nat.digitChar d := by decide
  have hyear : t.year / 10 ^ 3 < 10 := by
    have := t.year_lt
    omega
  obtain ⟨c, s, hyearText, hc⟩ := zeroPad_eq_cons 5 u.year
  have hwritten : u.writtenYear = c :: s := (if_neg hu).trans hyearText
  rw [String.lt_iff_toList_lt, h.toList, h.toList, fields_toUtc, Instant.fields, pad, List.cons_append, DateTimeUtc.fields,
    hwritten, List.cons_append, List.cons_lt_cons_iff]
  have hlt : c < Nat.digitChar (t.year / 10 ^ 3) := by
    rcases hc with rfl | rfl
    · exact (hdigit _ hyear).1
    · exact (hdigit _ hyear).2
  rintro (hlt' | ⟨heq, -⟩)
  · exact lt_asymm hlt hlt'
  · exact absurd (heq ▸ hlt) (lt_irrefl _)

end

end Calendar

namespace Llmctl

open Calendar

/-! ## Reports -/

section
variable {toRfc3339 : DateTimeUtc → String} (h : WritesRfc3339 toRfc3339)
include h

/-- But for December 9999, a stored instant is in the window of its month, as a text, and in no other. -/
theorem text_mem_window_iff {year : Int} {month : Nat} {f u : DateTimeUtc} (hok : monthBounds year month = .ok (f, u))
    (hmonth : ¬ (year = 9999 ∧ month = 12)) (t : Instant) :
    toRfc3339 f ≤ toRfc3339 t.toUtc ∧ toRfc3339 t.toUtc < toRfc3339 u ↔ (t.year : Int) = year ∧ t.month = month := by
  have hbounds := hasBounds_of_ok hok
  have hmem := hbounds.month_mem
  have hyear := t.year_lt
  obtain ⟨f₀, u₀, hok₀, hf, hu⟩ := monthBounds_ok hbounds
  rw [hok] at hok₀
  cases hok₀
  have hnext : u.year = year ∨ u.year = year + 1 ∧ u.month = 1 ∧ month = 12 := by
    rw [hu.year, hu.month]
    unfold nextMonth
    split
    · rename_i hlast
      exact .inr ⟨rfl, rfl, hlast⟩
    · exact .inl rfl
  have hfyear := hf.year
  by_cases hto : 0 ≤ u.year ∧ u.year ≤ 9999
  · obtain ⟨j, hj⟩ := exists_toUtc hto
    by_cases hfrom : 0 ≤ f.year ∧ f.year ≤ 9999
    · obtain ⟨i, hi⟩ := exists_toUtc hfrom
      have hwindow := mem_window_iff hok t.toUtc
      rw [← hi, ← hj] at hwindow ⊢
      rw [← not_lt, h.rfc3339.lt_iff, h.rfc3339.lt_iff, ← toUtc_lt_iff, ← toUtc_lt_iff]
      exact hwindow
    · -- The window is the one before year 0.
      refine iff_of_false (fun ⟨_, hlt⟩ => ?_) (by omega)
      rw [← hj, h.rfc3339.lt_iff, ← toUtc_lt_iff, hj] at hlt
      have hindex := (DateTimeUtc.lt_first_iff hu t.toUtc).mp hlt
      have hone := t.month_mem
      unfold DateTimeUtc.monthIndex Instant.toUtc at hindex
      dsimp only at hindex
      omega
  · exact iff_of_false (fun ⟨_, hlt⟩ => h.not_lt hto t hlt) (by omega)

theorem monthlyRows_ok {α : Type} (events : List (Event α)) {year : Int} {month : Nat} (hbounds : HasBounds year month)
    (hmonth : ¬ (year = 9999 ∧ month = 12)) :
    monthlyRows toRfc3339 (events.map (insertRow fun t => toRfc3339 t.toUtc)) year month =
      .ok (((events.filter fun event => (event.at_.year : Int) = year ∧ event.at_.month = month).insertionSort
        Event.Before).map (insertRow fun t => toRfc3339 t.toUtc)) := by
  obtain ⟨f, u, hok, -⟩ := monthBounds_ok hbounds
  unfold monthlyRows eventsBetween
  rw [hok]
  refine congrArg Except.ok ?_
  rw [List.filter_map, List.map_insertionSort (r := Event.Before) (s := Row.Before)]
  · congr 2
    refine List.filter_congr fun event _ => ?_
    rw [Function.comp_apply, ← Bool.decide_and]
    exact decide_eq_decide.mpr (text_mem_window_iff h hok hmonth event.at_)
  · intro left _ right _
    unfold Event.Before Row.Before
    simp only [insertRow, encodeTime, h.rfc3339.lt_iff, h.rfc3339.eq_iff]

/-- The windows of consecutive months meet, and every instant before the last month of the
calendar lies in exactly one. The report of a month has the events of the month, each as often
as it was stored, but for December 9999. -/
theorem months_partition :
    (∀ year month, (∃ w, monthBounds year month = .ok w) ↔ HasBounds year month) ∧
      (∀ year month f u, monthBounds year month = .ok (f, u) →
        f < u ∧ ∀ f' u', monthBounds (nextMonth year month).1 (nextMonth year month).2 = .ok (f', u') → u = f') ∧
      (∀ t : DateTimeUtc, (∃! m : Int × Nat, ∃ f u, monthBounds m.1 m.2 = .ok (f, u) ∧ f ≤ t ∧ t < u) ↔
        ¬ (t.year = maxYear ∧ t.month = 12)) ∧
      ∀ (α : Type) (events : List (Event α)) (year : Int) (month : Nat), HasBounds year month → ¬ (year = 9999 ∧ month = 12) →
        monthlyRows toRfc3339 (events.map (insertRow fun t => toRfc3339 t.toUtc)) year month =
          .ok (((events.filter fun event => (event.at_.year : Int) = year ∧ event.at_.month = month).insertionSort
            Event.Before).map (insertRow fun t => toRfc3339 t.toUtc)) := by
  refine ⟨fun year month => ⟨fun ⟨_, hok⟩ => hasBounds_of_ok hok, fun hbounds => ?_⟩, fun _ _ _ _ => windows_meet,
    fun _ => ⟨fun ⟨m, hm, _⟩ hlast => not_exists_month hlast m hm, existsUnique_month⟩, fun _ events _ _ => monthlyRows_ok h events⟩
  obtain ⟨f, u, hok, -⟩ := monthBounds_ok hbounds
  exact ⟨_, hok⟩

end

/-! ## Some months -/

def writeUtc (t : DateTimeUtc) : String := String.ofList (t.fields (fraction t.subsecond ++ utcOffset))

theorem writesRfc3339_writeUtc : WritesRfc3339 writeUtc := ⟨fun _ => rfl⟩

/-- Two events, each on the boundary of two months. -/
def midnightEvents : List (Event Unit) :=
  [⟨"march", ⟨2026, 3, 1, 0, 0, 0, 0, by decide, by decide, by decide, by decide, by decide⟩, ()⟩,
    ⟨"february", ⟨2026, 2, 1, 0, 0, 0, 0, by decide, by decide, by decide, by decide, by decide⟩, ()⟩]

theorem december_mem : 1 ≤ 12 ∧ 12 ≤ 12 := by decide

def lateEvent : Event Unit := ⟨"late", ⟨9999, 12, 24, 0, 0, 0, 0, by decide, december_mem, by decide, by decide, by decide⟩, ()⟩

/-- An event on a boundary is of the month that begins there. -/
theorem february_rows :
    monthlyRows writeUtc (midnightEvents.map (insertRow fun t => writeUtc t.toUtc)) 2026 2 =
      .ok [⟨"february", "2026-02-01T00:00:00+00:00", ()⟩] := by
  rw [(months_partition writesRfc3339_writeUtc).2.2.2 Unit _ 2026 2 ⟨by decide, by decide, by decide⟩ (by decide)]
  decide +kernel

/-- The last month has no window, and an event of December 9999 is in no report. -/
theorem months_lost :
    monthBounds 262142 12 = .error "invalid next month 262143-01" ∧
      ∀ year month rows, monthlyRows writeUtc [insertRow (fun t => writeUtc t.toUtc) lateEvent] year month = .ok rows →
        rows = [] := by
  refine ⟨by decide +kernel, fun year month rows hrows => ?_⟩
  have hbounds : HasBounds year month := by
    cases hok : monthBounds year month with
    | error message =>
      rw [monthlyRows, hok] at hrows
      cases hrows
    | ok w => exact hasBounds_of_ok hok
  by_cases hlate : year = 9999 ∧ month = 12
  · obtain ⟨rfl, rfl⟩ := hlate
    have hnone : monthlyRows writeUtc [insertRow (fun t => writeUtc t.toUtc) lateEvent] 9999 12 = .ok [] := by decide +kernel
    rw [hnone] at hrows
    cases hrows
    rfl
  · have hother : ¬ ((lateEvent.at_.year : Int) = year ∧ lateEvent.at_.month = month) :=
      fun ⟨hyear, hmonth⟩ => hlate ⟨hyear.symm, hmonth.symm⟩
    have hnone := monthlyRows_ok writesRfc3339_writeUtc [lateEvent] hbounds hlate
    rw [List.filter_cons_of_neg (by simpa using hother)] at hnone
    rw [List.map_singleton] at hnone
    rw [hnone] at hrows
    cases hrows
    rfl

end Llmctl
