import Mathlib.Data.List.Sort
import Llmctl.Store
import Llmctl.Store.Instants

/-!
# Stored times

Times are stored as RFC 3339 texts, and the queries compare them as texts. What is
written has as many groups of three decimals as the nanoseconds need.
-/

namespace Calendar

open Text

namespace Instant

/-- The second as it is written: 60 in a leap second. -/
def writtenSecond (t : Instant) : Nat := if 10 ^ 9 ≤ t.nanosecond then t.second + 1 else t.second

def subsecond (t : Instant) : Nat := if 10 ^ 9 ≤ t.nanosecond then t.nanosecond - 10 ^ 9 else t.nanosecond

/-- The date and the time of day, with something behind them. -/
def fields (t : Instant) (rest : List Char) : List Char :=
  pad 4 t.year ++ '-' :: (pad 2 t.month ++ '-' :: (pad 2 t.day ++ 'T' ::
    (pad 2 t.hour ++ ':' :: (pad 2 t.minute ++ ':' :: (pad 2 t.writtenSecond ++ rest)))))

end Instant

/-- `w` decimals of a second. -/
def decimals (w v : Nat) : List Char := if w = 0 then [] else '.' :: pad w v

def fraction (nanos : Nat) : List Char :=
  if nanos = 0 then []
  else if nanos % 1000000 = 0 then decimals 3 (nanos / 1000000)
  else if nanos % 1000 = 0 then decimals 6 (nanos / 1000)
  else decimals 9 nanos

def utcOffset : List Char := "+00:00".toList

/-- What is documented of `DateTime::to_rfc3339` and `DateTime::parse_from_rfc3339` for
times of UTC: the first writes as many decimals as needed, the second reads up to nine. -/
structure Rfc3339 (toRfc3339 : Instant → String) (parseFromRfc3339 : String → Option Instant) : Prop where
  writes : ∀ t, toRfc3339 t = String.ofList (t.fields (fraction t.subsecond ++ utcOffset))
  reads : ∀ (t : Instant) (w v : Nat), w ≤ 9 → v < 10 ^ w → v * 10 ^ (9 - w) = t.subsecond →
    parseFromRfc3339 (String.ofList (t.fields (decimals w v ++ utcOffset))) = some t

end Calendar

namespace Llmctl

open Calendar

/-! ## Tables of rows with a time -/

/-- A row of one of the tables that have an id and a time. -/
structure Row (α : Type) where
  id : String
  at_ : String
  columns : α
  deriving DecidableEq, Repr

/-- What a row is written from. -/
structure Event (α : Type) where
  id : String
  at_ : Instant
  columns : α
  deriving DecidableEq, Repr

section
variable {α : Type} (toRfc3339 : Instant → String) (parseFromRfc3339 : String → Option Instant)

def encodeTime (at_ : Instant) : String := toRfc3339 at_

def parseTime (value : String) : Option Instant := parseFromRfc3339 value

def insertRow (event : Event α) : Row α := ⟨event.id, encodeTime toRfc3339 event.at_, event.columns⟩

/-- `at >= ? AND at < ?` -/
def inWindow (from_ to_ : Instant) (row : Row α) : Bool :=
  decide (encodeTime toRfc3339 from_ ≤ row.at_) && decide (row.at_ < encodeTime toRfc3339 to_)

def allowedQuotaDecisionCount (rows : List (Row QuotaDecisionRecord)) (principal : Principal) (subjectScoped : Bool)
    (from_ to_ : Instant) : Nat :=
  rows.countP fun row => quotaRow principal subjectScoped row.columns && inWindow toRfc3339 from_ to_ row

def usageTokensTotal (rows : List (Row UsageEvent)) (principal : Principal) (subjectScoped : Bool) (from_ to_ : Instant) : Nat :=
  ((rows.filter fun row => inWindow toRfc3339 from_ to_ row &&
      if subjectScoped then row.columns.actor == principal.subject else row.columns.team == principal.team).map
    fun row => row.columns.inputTokens + row.columns.outputTokens).sum

/-- `ORDER BY at ASC, id ASC` -/
def Row.Before (left right : Row α) : Prop := left.at_ < right.at_ ∨ left.at_ = right.at_ ∧ left.id ≤ right.id

instance : DecidableRel (@Row.Before α) := fun left right =>
  inferInstanceAs (Decidable (left.at_ < right.at_ ∨ left.at_ = right.at_ ∧ left.id ≤ right.id))

/-- The rows of a window, as the queries of all tables select them. -/
def rowsBetween (rows : List (Row α)) (from_ to_ : Instant) : List (Row α) :=
  (rows.filter (inWindow toRfc3339 from_ to_)).insertionSort Row.Before

end

end Llmctl
