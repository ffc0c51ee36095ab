import Llmctl.Store.Times

/-!
# Months

The window of a month and what is reported of it. `DateTime<Utc>` has the years of the
calendar library here, and its texts write a year that has not four digits with a sign.
-/

namespace Calendar

open Text

def minYear : Int := -262143

def maxYear : Int := 262142

/-- The calendar repeats itself after 400 years. -/
def daysOfMonth (year : Int) (month : Nat) : Nat := daysInMonth (year % 400).toNat month

/-- `DateTime<Utc>` -/
@[ext]
structure DateTimeUtc where
  year : Int
  month : Nat
  day : Nat
  hour : Nat
  minute : Nat
  second : Nat
  nanosecond : Nat
  year_mem : minYear ≤ year ∧ year ≤ maxYear
  month_mem : 1 ≤ month ∧ month ≤ 12
  day_mem : 1 ≤ day ∧ day ≤ daysOfMonth year month
  time_lt : hour < 24 ∧ minute < 60 ∧ second < 60
  nanosecond_lt : nanosecond < 10 ^ 9 ∨ second = 59 ∧ nanosecond < 2 * 10 ^ 9
  deriving Repr

instance : DecidableEq DateTimeUtc := fun _ _ => decidable_of_iff' _ DateTimeUtc.ext_iff

namespace DateTimeUtc

instance : LT DateTimeUtc where
  lt t u := t.year < u.year ∨ t.year = u.year ∧ (t.month < u.month ∨ t.month = u.month ∧ (t.day < u.day ∨ t.day = u.day ∧
    (t.hour < u.hour ∨ t.hour = u.hour ∧ (t.minute < u.minute ∨ t.minute = u.minute ∧
      (t.second < u.second ∨ t.second = u.second ∧ t.nanosecond < u.nanosecond)))))

instance : LE DateTimeUtc where
  le t u := ¬ u < t

/-- `Utc.with_ymd_and_hms(..).single()` -/
def withYmdAndHms (year : Int) (month day hour minute second : Nat) : Option DateTimeUtc :=
  if h : (minYear ≤ year ∧ year ≤ maxYear) ∧ (1 ≤ month ∧ month ≤ 12) ∧ (1 ≤ day ∧ day ≤ daysOfMonth year month) ∧
      hour < 24 ∧ minute < 60 ∧ second < 60 then
    some ⟨year, month, day, hour, minute, second, 0, h.1, h.2.1, h.2.2.1, h.2.2.2, .inl (by decide)⟩
  else none

end DateTimeUtc

/-- `{:0w}`, the sign being one of the `w` characters; `{:+0w}` writes it always. -/
def zeroPad (plus : Bool) (w : Nat) (n : Int) : List Char :=
  let sign := if n < 0 then ['-'] else if plus then ['+'] else []
  let digits := Nat.toDigits 10 n.natAbs
  sign ++ (List.replicate (w - sign.length - digits.length) '0' ++ digits)

namespace DateTimeUtc

def writtenYear (t : DateTimeUtc) : List Char := if 0 ≤ t.year ∧ t.year ≤ 9999 then pad 4 t.year.toNat else zeroPad true 5 t.year

def writtenSecond (t : DateTimeUtc) : Nat := if 10 ^ 9 ≤ t.nanosecond then t.second + 1 else t.second

def subsecond (t : DateTimeUtc) : Nat := if 10 ^ 9 ≤ t.nanosecond then t.nanosecond - 10 ^ 9 else t.nanosecond

def fields (t : DateTimeUtc) (rest : List Char) : List Char :=
  t.writtenYear ++ '-' :: (pad 2 t.month ++ '-' :: (pad 2 t.day ++ 'T' ::
    (pad 2 t.hour ++ ':' :: (pad 2 t.minute ++ ':' :: (pad 2 t.writtenSecond ++ rest)))))

end DateTimeUtc

/-- What is documented of `DateTime::to_rfc3339`. -/
structure WritesRfc3339 (toRfc3339 : DateTimeUtc → String) : Prop where
  writes : ∀ t, toRfc3339 t = String.ofList (t.fields (fraction t.subsecond ++ utcOffset))

end Calendar

namespace Llmctl

open Calendar

def monthBounds (year : Int) (month : Nat) : Result (DateTimeUtc × DateTimeUtc) :=
  if ¬ (1 ≤ month ∧ month ≤ 12) then .error s!"month must be in 1..=12, got {month}"
  else
    match DateTimeUtc.withYmdAndHms year month 1 0 0 0 with
    | none => .error s!"invalid month {String.ofList (zeroPad false 4 year)}-{String.ofList (zeroPad false 2 month)}"
    | some from_ =>
      let next := if month = 12 then (year + 1, 1) else (year, month + 1)
      match DateTimeUtc.withYmdAndHms next.1 next.2 1 0 0 0 with
      | none => .error s!"invalid next month {String.ofList (zeroPad false 4 next.1)}-{String.ofList (zeroPad false 2 next.2)}"
      | some to_ => .ok (from_, to_)

def currentMonthBounds (now : DateTimeUtc) : Result (DateTimeUtc × DateTimeUtc) := monthBounds now.year now.month

section
variable {α : Type} (toRfc3339 : DateTimeUtc → String)

/-- `WHERE at >= ? AND at < ? ORDER BY at ASC, id ASC`, as for all tables. -/
def eventsBetween (rows : List (Row α)) (from_ to_ : DateTimeUtc) : List (Row α) :=
  (rows.filter fun row => decide (toRfc3339 from_ ≤ row.at_) && decide (row.at_ < toRfc3339 to_)).insertionSort Row.Before

/-- The rows of a table that `monthly_audit_report` reads. -/
def monthlyRows (rows : List (Row α)) (year : Int) (month : Nat) : Result (List (Row α)) := do
  let (from_, to_) ← monthBounds year month
  .ok (eventsBetween toRfc3339 rows from_ to_)

end

end Llmctl
