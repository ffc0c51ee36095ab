import Llmctl.Store.Times
import Mathlib.Data.String.Basic

/-!
# Stored times sort like time

The fields have a fixed width but for the decimals, which go in groups of three. A group
that is missing lets the sign of the offset stand against a digit or the point, and the
sign sorts before both.
-/

namespace Calendar

open Text

/-! ## Decimals -/

theorem cons_lt_cons_self {c : Char} {s t : List Char} : c :: s < c :: t ↔ s < t := by
  rw [List.cons_lt_cons_iff]
  simp

/-- Numbers of up to `n` groups; trailing groups of zeros are left out. -/
def Sorts (bound : Nat) (text : Nat → List Char) : Prop := ∀ m n, m < n → n < bound → text m < text n

theorem Sorts.lt_iff {bound : Nat} {text : Nat → List Char} (h : Sorts bound text) {m n : Nat} (hm : m < bound) (hn : n < bound) :
    text m < text n ↔ m < n := by
  constructor
  · intro hlt
    rcases Nat.lt_trichotomy m n with h' | rfl | h'
    · exact h'
    · exact absurd hlt (lt_irrefl _)
    · exact absurd hlt (lt_asymm (h n m h' hm))
  · exact fun hlt => h m n hlt hn

/-- One group of three digits before what sorts already; nothing of it is written for zero. -/
def group (bound : Nat) (before : List Char) (text : Nat → List Char) (n : Nat) : List Char :=
  if n = 0 then utcOffset else before ++ (pad 3 (n / bound) ++ text (n % bound))

theorem append_lt_append_self (before : List Char) {s t : List Char} : before ++ s < before ++ t ↔ s < t := by
  induction before with
  | nil => rfl
  | cons c before ih => rw [List.cons_append, List.cons_append, cons_lt_cons_self, ih]

/-- The offset sorts before a digit. -/
theorem utcOffset_lt_pad (n : Nat) (s : List Char) (hn : n < 1000) : utcOffset < pad 3 n ++ s := by
  have hdigit : ∀ d < 10, '+' < Nat.digitChar d := by decide
  have hlead : n / 100 < 10 := by omega
  exact List.cons_lt_cons_iff.mpr (Or.inl (hdigit _ hlead))

theorem sorts_group {bound : Nat} (hpos : 0 < bound) (before : List Char) {text : Nat → List Char} (h : Sorts bound text)
    (hbefore : ∀ n s, n < 1000 → utcOffset < before ++ (pad 3 n ++ s)) : Sorts (1000 * bound) (group bound before text) := by
  intro m n hlt hn
  have hquotient {k : Nat} (hk : k < 1000 * bound) : k / bound < 1000 := Nat.div_lt_of_lt_mul (by rwa [Nat.mul_comm])
  unfold group
  rw [if_neg (Nat.ne_zero_of_lt hlt)]
  by_cases hm : m = 0
  · rw [if_pos hm]
    exact hbefore _ _ (hquotient hn)
  · rw [if_neg hm, append_lt_append_self, pad_append_lt_iff (hquotient (Nat.lt_trans hlt hn)) (hquotient hn)]
    rcases (lt_iff_div_mod (p := bound)).mp hlt with hdiv | ⟨hdiv, hmod⟩
    · exact Or.inl hdiv
    · exact Or.inr ⟨hdiv, h _ _ hmod (Nat.mod_lt n hpos)⟩

/-- The nanoseconds in groups. -/
def groups : Nat → List Char := group 1000000 ['.'] (group 1000 [] (group 1 [] fun _ => utcOffset))

theorem sorts_groups : Sorts 1000000000 groups := by
  have hzero : Sorts 1 fun _ => utcOffset := by
    intro m n hlt hn
    omega
  have hthree := sorts_group Nat.one_pos [] hzero utcOffset_lt_pad
  have hsix := sorts_group (by decide) [] hthree utcOffset_lt_pad
  refine sorts_group (by decide) ['.'] hsix fun n s _ => ?_
  exact List.cons_lt_cons_iff.mpr (Or.inl (by decide))

theorem fraction_eq {nanos : Nat} (h : nanos < 10 ^ 9) : fraction nanos ++ utcOffset = groups nanos := by
  have hsplit {k : Nat} (hk : k < 10 ^ 6) : pad 6 k = pad 3 (k / 1000) ++ pad 3 (k % 1000) := pad_add (v := 3) (w := 3) hk
  have hnine : pad 9 nanos = pad 3 (nanos / 1000000) ++ pad 6 (nanos % 1000000) := pad_add (v := 3) (w := 6) h
  unfold fraction groups group
  by_cases hzero : nanos = 0
  · simp [hzero]
  · by_cases hmillis : nanos % 1000000 = 0
    · simp [hzero, hmillis, decimals]
    · by_cases hmicros : nanos % 1000 = 0
      · have hlast : nanos % 1000000 % 1000 = 0 := by omega
        have hmiddle : nanos / 1000 % 1000 = nanos % 1000000 / 1000 := by omega
        have hfirst : nanos / 1000 / 1000 = nanos / 1000000 := by omega
        simp [hzero, hmillis, hmicros, hlast, decimals, hsplit (show nanos / 1000 < 10 ^ 6 by omega), hmiddle, hfirst]
      · simp [hzero, hmillis, hmicros, decimals, hnine, hsplit (show nanos % 1000000 < 10 ^ 6 by omega)]

/-! ## The whole text -/

namespace Instant

variable (t u : Instant)

theorem subsecond_lt : t.subsecond < 10 ^ 9 := by
  have h := t.nanosecond_lt
  unfold subsecond
  split <;> omega

theorem writtenSecond_lt : t.writtenSecond < 10 ^ 2 := by
  have h := t.time_lt
  unfold writtenSecond
  split <;> omega

/-- Second 60 with its decimals stands for second 59 with a second more. -/
theorem written_lt_iff : t.writtenSecond < u.writtenSecond ∨ t.writtenSecond = u.writtenSecond ∧ t.subsecond < u.subsecond ↔
    t.second < u.second ∨ t.second = u.second ∧ t.nanosecond < u.nanosecond := by
  have ht := t.nanosecond_lt
  have hu := u.nanosecond_lt
  have ht' := t.time_lt
  have hu' := u.time_lt
  unfold writtenSecond subsecond
  split <;> split <;> omega

theorem month_lt : t.month < 10 ^ 2 := by
  have h := t.month_mem
  omega

theorem day_lt : t.day < 10 ^ 2 := by
  have h := t.day_mem
  have hmonth : daysInMonth t.year t.month ≤ 31 := by
    unfold daysInMonth leapDay
    split
    · split <;> omega
    · omega
    · omega
    · omega
    · omega
    · omega
  omega

theorem fields_lt_iff (r r' : List Char) : t.fields r < u.fields r' ↔
    t.DateLt u ∨ (t.year = u.year ∧ t.month = u.month ∧ t.day = u.day) ∧
      (t.hour < u.hour ∨ t.hour = u.hour ∧ (t.minute < u.minute ∨ t.minute = u.minute ∧
        (t.writtenSecond < u.writtenSecond ∨ t.writtenSecond = u.writtenSecond ∧ r < r'))) := by
  have ht := t.time_lt
  have hu := u.time_lt
  unfold fields DateLt
  rw [pad_append_lt_iff t.year_lt u.year_lt, cons_lt_cons_self, pad_append_lt_iff t.month_lt u.month_lt, cons_lt_cons_self,
    pad_append_lt_iff t.day_lt u.day_lt, cons_lt_cons_self, pad_append_lt_iff (by omega) (by omega), cons_lt_cons_self,
    pad_append_lt_iff (by omega) (by omega), cons_lt_cons_self, pad_append_lt_iff t.writtenSecond_lt u.writtenSecond_lt]
  tauto

/-- The texts sort like the instants. -/
theorem fields_fraction_lt_iff :
    t.fields (fraction t.subsecond ++ utcOffset) < u.fields (fraction u.subsecond ++ utcOffset) ↔ t < u := by
  rw [fields_lt_iff, lt_iff, fraction_eq t.subsecond_lt, fraction_eq u.subsecond_lt,
    sorts_groups.lt_iff t.subsecond_lt u.subsecond_lt, written_lt_iff]

end Instant

section
variable {toRfc3339 : Instant → String} {parseFromRfc3339 : String → Option Instant} (h : Rfc3339 toRfc3339 parseFromRfc3339)
include h

theorem Rfc3339.lt_iff (t u : Instant) : toRfc3339 t < toRfc3339 u ↔ t < u := by
  rw [h.writes, h.writes, String.lt_iff_toList_lt, String.toList_ofList, String.toList_ofList, Instant.fields_fraction_lt_iff]

theorem Rfc3339.eq_iff (t u : Instant) : toRfc3339 t = toRfc3339 u ↔ t = u := by
  constructor
  · intro heq
    rcases Instant.lt_trichotomy t u with hlt | rfl | hlt
    · exact absurd ((h.lt_iff t u).mpr hlt) (heq ▸ lt_irrefl _)
    · rfl
    · exact absurd ((h.lt_iff u t).mpr hlt) (heq ▸ lt_irrefl _)
  · exact congrArg toRfc3339

theorem Rfc3339.le_iff (t u : Instant) : toRfc3339 t ≤ toRfc3339 u ↔ t ≤ u := by
  rw [← not_lt, h.lt_iff]
  rfl

/-- What was written is read back. -/
theorem Rfc3339.parse (t : Instant) : parseFromRfc3339 (toRfc3339 t) = some t := by
  have hlt := t.subsecond_lt
  rw [h.writes]
  unfold fraction
  split
  · rename_i hzero
    exact h.reads t 0 0 (Nat.zero_le 9) Nat.one_pos (by rw [hzero, Nat.zero_mul])
  · split
    · exact h.reads t 3 _ (by decide) (by omega) (by omega)
    · split
      · exact h.reads t 6 _ (by decide) (by omega) (by omega)
      · exact h.reads t 9 _ (by decide) (by omega) (by omega)

end

end Calendar

namespace Llmctl

open Calendar

/-! ## Windows -/

/-- The instants of a window. -/
def Event.within {α : Type} (from_ to_ : Instant) (event : Event α) : Bool := decide (from_ ≤ event.at_) && decide (event.at_ < to_)

/-- By time, then by id. -/
def Event.Before {α : Type} (left right : Event α) : Prop := left.at_ < right.at_ ∨ left.at_ = right.at_ ∧ left.id ≤ right.id

instance {α : Type} : DecidableRel (@Event.Before α) := fun left right =>
  inferInstanceAs (Decidable (left.at_ < right.at_ ∨ left.at_ = right.at_ ∧ left.id ≤ right.id))

section
variable {toRfc3339 : Instant → String} {parseFromRfc3339 : String → Option Instant} (h : Rfc3339 toRfc3339 parseFromRfc3339)
variable {α : Type} (from_ to_ : Instant)
include h

theorem inWindow_insertRow (event : Event α) : inWindow toRfc3339 from_ to_ (insertRow toRfc3339 event) = event.within from_ to_ := by
  unfold inWindow Event.within
  simp only [insertRow, encodeTime, h.le_iff, h.lt_iff]

theorem filter_insertRow (events : List (Event α)) :
    (events.map (insertRow toRfc3339)).filter (inWindow toRfc3339 from_ to_) =
      (events.filter (Event.within from_ to_)).map (insertRow toRfc3339) := by
  rw [List.filter_map]
  congr 1
  exact List.filter_congr fun event _ => inWindow_insertRow h from_ to_ event

theorem rowsBetween_insertRow (events : List (Event α)) :
    rowsBetween toRfc3339 (events.map (insertRow toRfc3339)) from_ to_ =
      ((events.filter (Event.within from_ to_)).insertionSort Event.Before).map (insertRow toRfc3339) := by
  unfold rowsBetween
  rw [filter_insertRow h, List.map_insertionSort (r := Event.Before) (s := Row.Before)]
  intro left _ right _
  unfold Event.Before Row.Before
  simp only [insertRow, encodeTime, h.lt_iff, h.eq_iff]

/-- Stored times sort like the instants and are read back, so every window of every table
has the rows whose instants lie in it. -/
theorem encodeTime_sorts :
    (∀ t u, (encodeTime toRfc3339 t < encodeTime toRfc3339 u ↔ t < u) ∧
        (encodeTime toRfc3339 t = encodeTime toRfc3339 u ↔ t = u)) ∧
      (∀ t, parseTime parseFromRfc3339 (encodeTime toRfc3339 t) = some t) ∧
      (∀ (α : Type) (events : List (Event α)) (from_ to_ : Instant),
        rowsBetween toRfc3339 (events.map (insertRow toRfc3339)) from_ to_ =
          ((events.filter (Event.within from_ to_)).insertionSort Event.Before).map (insertRow toRfc3339)) ∧
      (∀ (events : List (Event QuotaDecisionRecord)) (principal : Principal) (subjectScoped : Bool) (from_ to_ : Instant),
        allowedQuotaDecisionCount toRfc3339 (events.map (insertRow toRfc3339)) principal subjectScoped from_ to_ =
          (events.filter (Event.within from_ to_)).countP fun event => quotaRow principal subjectScoped event.columns) ∧
      ∀ (events : List (Event UsageEvent)) (principal : Principal) (subjectScoped : Bool) (from_ to_ : Instant),
        usageTokensTotal toRfc3339 (events.map (insertRow toRfc3339)) principal subjectScoped from_ to_ =
          (((events.filter (Event.within from_ to_)).filter fun event =>
            if subjectScoped then event.columns.actor == principal.subject else event.columns.team == principal.team).map
              fun event => event.columns.inputTokens + event.columns.outputTokens).sum := by
  refine ⟨fun t u => ⟨h.lt_iff t u, h.eq_iff t u⟩, h.parse, fun α events from_ to_ => rowsBetween_insertRow h from_ to_ events, ?_, ?_⟩
  · intro events principal subjectScoped from_ to_
    unfold allowedQuotaDecisionCount
    rw [List.countP_map, List.countP_filter]
    refine List.countP_congr fun event _ => ?_
    simp only [Function.comp_apply, inWindow_insertRow h]
    rfl
  · intro events principal subjectScoped from_ to_
    unfold usageTokensTotal
    rw [List.filter_map, List.map_map, List.filter_filter]
    congr 2
    refine List.filter_congr fun event _ => ?_
    simp only [Function.comp_apply, inWindow_insertRow h, Bool.and_comm]
    rfl

end

end Llmctl

/-! ## A reader and a writer -/

namespace Calendar

open Text

def expect (c : Char) : List Char → Option (List Char)
  | [] => none
  | d :: s => if d = c then some s else none

theorem expect_cons (c : Char) (s : List Char) : expect c (c :: s) = some s := if_pos rfl

/-- Up to nine decimals, as nanoseconds. -/
def readFraction : List Char → Option (Nat × List Char)
  | '.' :: s =>
    let w := min (s.takeWhile Char.isDigit).length 9
    if w = 0 then none else (readPad w s).map fun (v, s) => (v * 10 ^ (9 - w), s.dropWhile Char.isDigit)
  | s => some (0, s)

def ofFields (year month day hour minute second nanos : Nat) : Option Instant :=
  if h : year < 10000 ∧ (1 ≤ month ∧ month ≤ 12) ∧ (1 ≤ day ∧ day ≤ daysInMonth year month) ∧ hour < 24 ∧ minute < 60 ∧
      second ≤ 60 ∧ nanos < 10 ^ 9 then
    some
      { year, month, day, hour, minute
        second := min second 59
        nanosecond := if second = 60 then nanos + 10 ^ 9 else nanos
        year_lt := h.1
        month_mem := h.2.1
        day_mem := h.2.2.1
        time_lt := by omega
        nanosecond_lt := by split <;> omega }
  else none

def writeRfc3339 (t : Instant) : String := String.ofList (t.fields (fraction t.subsecond ++ utcOffset))

def readRfc3339 (value : String) : Option Instant := do
  let (year, s) ← readPad 4 value.toList
  let s ← expect '-' s
  let (month, s) ← readPad 2 s
  let s ← expect '-' s
  let (day, s) ← readPad 2 s
  let s ← expect 'T' s
  let (hour, s) ← readPad 2 s
  let s ← expect ':' s
  let (minute, s) ← readPad 2 s
  let s ← expect ':' s
  let (second, s) ← readPad 2 s
  let (nanos, s) ← readFraction s
  if s = utcOffset then ofFields year month day hour minute second nanos else none

theorem isDigit_pad {w n : Nat} (h : n < 10 ^ w) : (pad w n).all Char.isDigit = true ∧ (pad w n).length = w := by
  induction w generalizing n with
  | zero => exact ⟨rfl, rfl⟩
  | succ w ih =>
    have hdigit : n / 10 ^ w < 10 := by
      rw [Nat.pow_succ] at h
      exact Nat.div_lt_of_lt_mul h
    have hchar : ∀ d < 10, (Nat.digitChar d).isDigit = true := by decide
    have hrest := ih (Nat.mod_lt n (Nat.pow_pos (by decide)))
    exact ⟨by rw [pad, List.all_cons, hchar _ hdigit, hrest.1]; rfl, by rw [pad, List.length_cons, hrest.2]⟩

theorem readFraction_decimals {w v : Nat} (hw : w ≤ 9) (hv : v < 10 ^ w) :
    readFraction (decimals w v ++ utcOffset) = some (v * 10 ^ (9 - w), utcOffset) := by
  unfold decimals
  split
  · rename_i hzero
    subst hzero
    rw [Nat.pow_zero, Nat.lt_one_iff] at hv
    rw [hv]
    rfl
  · obtain ⟨hall, hlength⟩ := isDigit_pad hv
    have htake : (pad w v ++ utcOffset).takeWhile Char.isDigit = pad w v := by
      rw [List.takeWhile_append_of_pos (List.all_eq_true.mp hall)]
      exact List.append_nil _
    have hmin : min w 9 = w := Nat.min_eq_left hw
    simp only [List.cons_append, readFraction, htake, hlength, hmin]
    rw [if_neg (by assumption), readPad_pad hv]
    rfl

theorem ofFields_written (t : Instant) :
    ofFields t.year t.month t.day t.hour t.minute t.writtenSecond t.subsecond = some t := by
  have htime := t.time_lt
  have hnano := t.nanosecond_lt
  have hsub := t.subsecond_lt
  have hvalid : t.writtenSecond ≤ 60 := by
    have := t.writtenSecond_lt
    unfold Instant.writtenSecond
    split <;> omega
  have hsecond : min t.writtenSecond 59 = t.second := by
    unfold Instant.writtenSecond
    split <;> omega
  have hnanos : (if t.writtenSecond = 60 then t.subsecond + 10 ^ 9 else t.subsecond) = t.nanosecond := by
    unfold Instant.writtenSecond Instant.subsecond
    split <;> split <;> omega
  unfold ofFields
  rw [dif_pos ⟨t.year_lt, t.month_mem, t.day_mem, htime.1, htime.2.1, hvalid, hsub⟩]
  cases t
  simp only [Option.some.injEq, Instant.mk.injEq]
  exact ⟨trivial, trivial, trivial, trivial, trivial, hsecond, hnanos⟩

theorem rfc3339_written : Rfc3339 writeRfc3339 readRfc3339 where
  writes _ := rfl
  reads t w v hw hv hsub := by
    have htime := t.time_lt
    unfold readRfc3339 Instant.fields
    simp only [String.toList_ofList, readPad_pad (show t.year < 10 ^ 4 from t.year_lt), readPad_pad t.month_lt, readPad_pad t.day_lt,
      readPad_pad t.writtenSecond_lt, readPad_pad (show t.hour < 10 ^ 2 by omega), readPad_pad (show t.minute < 10 ^ 2 by omega),
      expect_cons, Option.bind_eq_bind, Option.bind_some, readFraction_decimals hw hv, hsub, if_true]
    exact ofFields_written t

end Calendar

namespace Llmctl

open Calendar

/-- A leap second, whose text is after those of its minute and before the next minute. -/
def leapSecond : Instant where
  year := 2016
  month := 12
  day := 31
  hour := 23
  minute := 59
  second := 59
  nanosecond := 1500000000
  year_lt := by decide
  month_mem := by decide
  day_mem := by decide
  time_lt := by decide
  nanosecond_lt := by decide

theorem encodeTime_leapSecond :
    encodeTime writeRfc3339 leapSecond = "2016-12-31T23:59:60.500+00:00" ∧
      parseTime readRfc3339 (encodeTime writeRfc3339 leapSecond) = some leapSecond :=
  ⟨by decide, (encodeTime_sorts rfc3339_written).2.1 leapSecond⟩

end Llmctl
