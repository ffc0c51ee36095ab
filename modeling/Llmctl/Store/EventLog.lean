import Llmctl.Store.Database

/-!
# The log that the tables keep

What the tables are for: lists of records, with times that compare as times and ids that
compare as ids. A record is refused where the database cannot hold it.
-/

namespace Llmctl.Tables

open Calendar

/-! ## What cannot be held -/

section
variable {U J F : Type} (isNan : F → Bool) (dialect : SqlDialect)

def refuseUnless (holds : Bool) : Option StorageError := if holds then none else some .constraint

def AuditColumns.texts (c : AuditColumns U J) : List String := [c.actor, c.team, c.action, c.resource, c.outcome]

def auditRefusal (c : AuditColumns U J) : Option StorageError := refuseUnless (dialect.takes c.texts)

def UsageColumns.texts (c : UsageColumns U) : List String := [c.model, c.actor, c.team, c.status]

def UsageColumns.counts (c : UsageColumns U) : List Nat := [c.inputTokens.toNat, c.outputTokens.toNat, c.latencyMs.toNat]

def usageRefusal (c : UsageColumns U) : Option StorageError :=
  if c.counts.all fun count => decide (count < 2 ^ 63) then
    refuseUnless (dialect.takes c.texts && c.counts.all fun count => decide ((count : Int) ≤ dialect.integerMax))
  else some .outOfRange

def ObservationColumns.texts (c : ObservationColumns U J F) : List String := [c.kind, c.model, c.source, c.unit]

def observationRefusal (c : ObservationColumns U J F) : Option StorageError :=
  refuseUnless (dialect.takes c.texts && (dialect == .postgres || !isNan c.value))

def QuotaColumns.texts (c : QuotaColumns U J) : List String := [c.actor, c.team, c.model, c.reason]

def quotaRefusal (c : QuotaColumns U J) : Option StorageError := refuseUnless (dialect.takes c.texts)

def LineageColumns.texts (c : LineageColumns U) : List String := [c.lineageId, c.source] ++ c.model.toList ++ c.corpus.toList

def lineageRefusal (c : LineageColumns U) : Option StorageError := refuseUnless (dialect.takes c.texts)

end

/-! ## Lists of records -/

section
variable {U C : Type} [LinearOrder U]

def Record.within (from_ to_ : Instant) (event : Record U C) : Bool := decide (from_ ≤ event.at_) && decide (event.at_ < to_)

def Record.Before (left right : Record U C) : Prop := left.at_ < right.at_ ∨ left.at_ = right.at_ ∧ left.id ≤ right.id

instance : DecidableRel (@Record.Before U C _) := fun left right =>
  inferInstanceAs (Decidable (left.at_ < right.at_ ∨ left.at_ = right.at_ ∧ left.id ≤ right.id))

def logEvent (refusal : C → Option StorageError) (event : Record U C) (events : List (Record U C)) :
    StorageResult Unit × List (Record U C) :=
  match refusal event.columns with
  | some err => (.error err, events)
  | none => if events.any (·.id == event.id) then (.error .constraint, events) else (.ok (), events ++ [event])

def logBetween (events : List (Record U C)) (from_ to_ : Instant) (limit : Option Nat) : StorageResult (List (Record U C)) :=
  limited limit ((events.filter (·.within from_ to_)).insertionSort Record.Before)

def logForRequest (request : C → Option U) (events : List (Record U C)) (requestId : U) : List (Record U C) :=
  (events.filter fun event => request event.columns == some requestId).insertionSort Record.Before

end

/-! ## Calls -/

structure EventLog (U J F : Type) where
  auditEvents : List (Record U (AuditColumns U J)) := []
  usageEvents : List (Record U (UsageColumns U)) := []
  observationEvents : List (Record U (ObservationColumns U J F)) := []
  quotaDecisions : List (Record U (QuotaColumns U J)) := []
  requestLineageJoins : List (Record U (LineageColumns U)) := []
  modelInventory : List ModelRecord := []

section
variable {U J F : Type} [LinearOrder U] (isNan : F → Bool) (dialect : SqlDialect)

def logRetention (events : List (Record U (AuditColumns U J))) (cutoff : Instant) : RetentionCounts where
  total := events.length
  inRetentionWindow := events.countP fun event => decide (cutoff ≤ event.at_)
  outsideRetentionWindow := events.countP fun event => decide (event.at_ < cutoff)

def logAllowed (decisions : List (Record U (QuotaColumns U J))) (principal : Principal) (subjectScoped : Bool)
    (from_ to_ : Instant) : StorageResult Nat :=
  if dialect.takes [scopeValue principal subjectScoped] then
    .ok <| decisions.countP fun decision => decision.columns.allowed && decision.within from_ to_ &&
      inScope principal subjectScoped decision.columns.actor decision.columns.team
  else .error .statement

/-- The tokens of one event are added first, in a column's own range. -/
def logTokens (events : List (Record U (UsageColumns U))) (principal : Principal) (subjectScoped : Bool)
    (from_ to_ : Instant) : StorageResult Nat :=
  let sums : List Nat := (events.filter fun event => event.within from_ to_ &&
      inScope principal subjectScoped event.columns.actor event.columns.team).map
    fun event => event.columns.inputTokens.toNat + event.columns.outputTokens.toNat
  if !dialect.takes [scopeValue principal subjectScoped] then .error .statement
  else if (sums.all fun sum => decide ((sum : Int) ≤ dialect.integerMax)) && decide (sums.sum < 2 ^ 63) then .ok sums.sum
  else .error .overflow

def logModel (model : ModelRecord) (models : List ModelRecord) : StorageResult Unit × List ModelRecord :=
  if dialect.takes [model.alias_, model.path, model.role] ∧ (model.weight.toNat : Int) ≤ dialect.integerMax then
    if models.any (·.alias_ == model.alias_) then
      (.ok (), models.map fun old => if (old.alias_ == model.alias_) = true then model else old)
    else (.ok (), models ++ [model])
  else (.error .constraint, models)

def ModelRecord.Before (left right : ModelRecord) : Prop := left.alias_ ≤ right.alias_

instance : DecidableRel ModelRecord.Before := fun left right => inferInstanceAs (Decidable (left.alias_ ≤ right.alias_))

def EventLog.call (log : EventLog U J F) : StorageCall U J F → StorageResult (StorageAnswer U J F) × EventLog U J F
  | .insertAuditEvent event =>
    let (result, auditEvents) := logEvent (auditRefusal dialect) event log.auditEvents
    (result.map fun _ => .done, { log with auditEvents })
  | .insertUsageEvent event =>
    let (result, usageEvents) := logEvent (usageRefusal dialect) event log.usageEvents
    (result.map fun _ => .done, { log with usageEvents })
  | .insertObservationEvent event =>
    let (result, observationEvents) := logEvent (observationRefusal isNan dialect) event log.observationEvents
    (result.map fun _ => .done, { log with observationEvents })
  | .insertQuotaDecision decision =>
    let (result, quotaDecisions) := logEvent (quotaRefusal dialect) decision log.quotaDecisions
    (result.map fun _ => .done, { log with quotaDecisions })
  | .insertRequestLineageJoin record =>
    let (result, requestLineageJoins) := logEvent (lineageRefusal dialect) record log.requestLineageJoins
    (result.map fun _ => .done, { log with requestLineageJoins })
  | .upsertModelRecord model =>
    let (result, modelInventory) := logModel dialect model log.modelInventory
    (result.map fun _ => .done, { log with modelInventory })
  | .deleteAuditEventsBefore cutoff =>
    (.ok (.count (log.auditEvents.countP fun event => decide (event.at_ < cutoff))),
      { log with auditEvents := log.auditEvents.filter fun event => !decide (event.at_ < cutoff) })
  | .auditEventsBetween from_ to_ limit => ((logBetween log.auditEvents from_ to_ limit).map .audit, log)
  | .usageEventsBetween from_ to_ limit => ((logBetween log.usageEvents from_ to_ limit).map .usage, log)
  | .observationEventsBetween from_ to_ limit => ((logBetween log.observationEvents from_ to_ limit).map .observation, log)
  | .quotaDecisionsBetween from_ to_ limit => ((logBetween log.quotaDecisions from_ to_ limit).map .quota, log)
  | .requestLineageJoinsBetween from_ to_ limit => ((logBetween log.requestLineageJoins from_ to_ limit).map .lineage, log)
  | .auditEventsForRequest requestId => (.ok (.audit (logForRequest (·.requestId) log.auditEvents requestId)), log)
  | .usageEventsForRequest requestId => (.ok (.usage (logForRequest (some ·.requestId) log.usageEvents requestId)), log)
  | .observationEventsForRequest requestId =>
    (.ok (.observation (logForRequest (·.requestId) log.observationEvents requestId)), log)
  | .quotaDecisionsForRequest requestId => (.ok (.quota (logForRequest (·.requestId) log.quotaDecisions requestId)), log)
  | .requestLineageJoinsForRequest requestId =>
    (.ok (.lineage (logForRequest (some ·.requestId) log.requestLineageJoins requestId)), log)
  | .requestLineageJoins => (.ok (.lineage (log.requestLineageJoins.insertionSort Record.Before)), log)
  | .auditRetentionCounts cutoff => (.ok (.counts (logRetention log.auditEvents cutoff)), log)
  | .allowedQuotaDecisionCount principal subjectScoped from_ to_ =>
    ((logAllowed dialect log.quotaDecisions principal subjectScoped from_ to_).map .count, log)
  | .usageTokensTotal principal subjectScoped from_ to_ =>
    ((logTokens dialect log.usageEvents principal subjectScoped from_ to_).map .count, log)
  | .listModels => (.ok (.models (log.modelInventory.insertionSort ModelRecord.Before)), log)

end

end Llmctl.Tables
