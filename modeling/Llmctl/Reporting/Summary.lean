import Llmctl.Sse
import Llmctl.Store

/-!
# Usage summaries

`summarizeUsage` adds up a list of usage events, over all and by model, team and
actor.
-/

namespace Llmctl

/-- The sums that a summary and each of its breakdowns keep. -/
structure UsageTotals where
  requestCount : Nat := 0
  inputTokens : Nat := 0
  outputTokens : Nat := 0
  totalTokens : Nat := 0
  totalLatencyMs : Nat := 0
  deriving DecidableEq, Repr

/-- The common body of `accumulate_summary` and `accumulate_breakdown`. -/
def UsageTotals.accumulate (t : UsageTotals) (event : UsageEvent) : UsageTotals where
  requestCount := t.requestCount + 1
  inputTokens := saturatingAdd t.inputTokens event.inputTokens
  outputTokens := saturatingAdd t.outputTokens event.outputTokens
  totalTokens := saturatingAdd t.totalTokens (saturatingAdd event.inputTokens event.outputTokens)
  totalLatencyMs := saturatingAdd t.totalLatencyMs event.latencyMs

/-- The operands of the quotient, which the code takes in `f64`. -/
def average (total count : Nat) : Option (Nat × Nat) := if count = 0 then none else some (total, count)

structure UsageBreakdown extends UsageTotals where
  key : String
  averageLatencyMs : Option (Nat × Nat) := none
  deriving DecidableEq, Repr

structure UsageSummary extends UsageTotals where
  averageLatencyMs : Option (Nat × Nat) := none
  byModel : List UsageBreakdown := []
  byTeam : List UsageBreakdown := []
  byActor : List UsageBreakdown := []
  deriving DecidableEq, Repr

def accumulateSummary (summary : UsageSummary) (event : UsageEvent) : UsageSummary :=
  { summary with toUsageTotals := summary.toUsageTotals.accumulate event }

/-- The breakdowns stand in the order of their keys, as in the `BTreeMap`. -/
def accumulateBreakdown (key : String) (event : UsageEvent) : List UsageBreakdown → List UsageBreakdown
  | [] => [{ toUsageTotals := UsageTotals.accumulate {} event, key := key }]
  | b :: bs =>
    if key = b.key then { b with toUsageTotals := b.toUsageTotals.accumulate event } :: bs
    else if key < b.key then { toUsageTotals := UsageTotals.accumulate {} event, key := key } :: b :: bs
    else b :: accumulateBreakdown key event bs

def finishBreakdowns (breakdowns : List UsageBreakdown) : List UsageBreakdown :=
  breakdowns.map fun b => { b with averageLatencyMs := average b.totalLatencyMs b.requestCount }

def breakdownsBy (key : UsageEvent → String) (events : List UsageEvent) : List UsageBreakdown :=
  events.foldl (fun breakdowns event => accumulateBreakdown (key event) event breakdowns) []

def summarizeUsage (events : List UsageEvent) : UsageSummary :=
  let summary := events.foldl accumulateSummary {}
  { summary with
    averageLatencyMs := average summary.totalLatencyMs summary.requestCount
    byModel := finishBreakdowns (breakdownsBy (·.model) events)
    byTeam := finishBreakdowns (breakdownsBy (·.team) events)
    byActor := finishBreakdowns (breakdownsBy (·.actor) events) }

theorem requestCount_foldl (events : List UsageEvent) :
    ∀ summary : UsageSummary, (events.foldl accumulateSummary summary).requestCount = summary.requestCount + events.length := by
  induction events with
  | nil => intro summary; rfl
  | cons event events ih =>
    intro summary
    rw [List.foldl_cons, ih, List.length_cons]
    show summary.requestCount + 1 + events.length = _
    omega

@[simp] theorem summarizeUsage_requestCount (events : List UsageEvent) :
    (summarizeUsage events).requestCount = events.length := by
  have h := requestCount_foldl events {}
  simpa [summarizeUsage] using h

end Llmctl
