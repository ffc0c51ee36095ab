import Llmctl.Reporting.Summary
import Llmctl.Store.Times

/-!
# Data exports

An export reads the rows of a window from each requested table, one row more than it may
have, and is refused where a table gives that many.
-/

namespace Llmctl

open Calendar

/-- A table with ids and times; its row ids are 64-bit. -/
structure Table (α : Type) where
  rows : List (Row α)
  length_lt : rows.length < 2 ^ 63

structure ObservationEvent (F : Type) where
  requestId : Option Nat
  kind : String
  model : String
  source : String
  value : F
  unit : String
  attributesJson : Json

structure ModelInventoryRecord where
  alias_ : String
  path : String
  role : String
  weight : Nat
  updatedAt : Instant

structure ExportModelInventoryRecord where
  alias_ : String
  role : String
  weight : Nat
  updatedAt : Instant
  deriving DecidableEq, Repr

def ExportModelInventoryRecord.fromRecord (record : ModelInventoryRecord) : ExportModelInventoryRecord where
  alias_ := record.alias_
  role := record.role
  weight := record.weight
  updatedAt := record.updatedAt

inductive Dataset where
  | audit
  | usage
  | observability
  | quota
  | lineage
  | models
  deriving DecidableEq, Repr

/-- The tables that exports read. A read may fail for reasons of its own, such as a limit
that the database does not take. -/
structure ExportStorage (F : Type) where
  auditEvents : Table AuditEvent
  usageEvents : Table UsageEvent
  observationEvents : Table (ObservationEvent F)
  quotaDecisions : Table QuotaDecisionRecord
  requestLineageJoins : Table RequestLineageJoinRecord
  modelInventory : List ModelInventoryRecord
  failure : Dataset → Option Nat → Option String

def limitClause (limit : Option Nat) : Option Nat := limit.map fun limit => max limit 1

section
variable {F : Type} (toRfc3339 : Instant → String) (st : ExportStorage F) (from_ to_ : Instant)

/-- The common body of the `*_between_limited` queries. -/
def betweenLimited {α : Type} (dataset : Dataset) (table : Table α) (limit : Option Nat) : Result (List (Row α)) :=
  match st.failure dataset (limitClause limit) with
  | some error => .error error
  | none =>
    let rows := rowsBetween toRfc3339 table.rows from_ to_
    match limitClause limit with
    | none => .ok rows
    | some limit => .ok (rows.take limit)

def auditEventsBetweenLimited := betweenLimited toRfc3339 st from_ to_ .audit st.auditEvents

def usageEventsBetweenLimited := betweenLimited toRfc3339 st from_ to_ .usage st.usageEvents

def observationEventsBetweenLimited := betweenLimited toRfc3339 st from_ to_ .observability st.observationEvents

def quotaDecisionsBetweenLimited := betweenLimited toRfc3339 st from_ to_ .quota st.quotaDecisions

def requestLineageJoinsBetweenLimited := betweenLimited toRfc3339 st from_ to_ .lineage st.requestLineageJoins

def ExportStorage.listModels : Result (List ModelInventoryRecord) :=
  match st.failure .models none with
  | some error => .error error
  | none => .ok (st.modelInventory.insertionSort fun left right => left.alias_ ≤ right.alias_)

end

def ensureLimited (dataset : String) (count maxRows : Nat) : Result Unit :=
  if count ≤ maxRows then .ok ()
  else .error s!"data export dataset `{dataset}` exceeds max_rows {maxRows}; narrow the time window or raise --max-rows"

def ensureEach (maxRows : Nat) : List (String × Nat) → Result Unit
  | [] => .ok ()
  | (dataset, count) :: counts => do
    ensureLimited dataset count maxRows
    ensureEach maxRows counts

/-- The checks of one export, if it has a limit. -/
def ensureAll (counts : List (String × Nat)) : Option Nat → Result Unit
  | none => .ok ()
  | some maxRows => ensureEach maxRows counts

structure Datasets (F : Type) where
  auditEvents : List (Row AuditEvent) := []
  usageEvents : List (Row UsageEvent) := []
  observationEvents : List (Row (ObservationEvent F)) := []
  quotaDecisions : List (Row QuotaDecisionRecord) := []
  models : List ExportModelInventoryRecord := []
  lineage : List (Row RequestLineageJoinRecord) := []

structure ReportSummary where
  auditEventCount : Nat
  usageEventCount : Nat
  observationEventCount : Nat
  modelRecordCount : Nat
  quotaDecisionCount : Nat
  lineageJoinCount : Nat
  usage : UsageSummary
  deriving DecidableEq, Repr

structure DataExport (F : Type) extends Datasets F where
  from_ : Instant
  to_ : Instant
  reportSummary : ReportSummary
  usageSummary : UsageSummary

def dataExport {F : Type} (from_ to_ : Instant) (datasets : Datasets F) : DataExport F :=
  let usageSummary := summarizeUsage (datasets.usageEvents.map (·.columns))
  { datasets with
    from_, to_, usageSummary
    reportSummary :=
      { auditEventCount := datasets.auditEvents.length
        usageEventCount := datasets.usageEvents.length
        observationEventCount := datasets.observationEvents.length
        modelRecordCount := datasets.models.length
        quotaDecisionCount := datasets.quotaDecisions.length
        lineageJoinCount := datasets.lineage.length
        usage := usageSummary } }

inductive DatasetKind where
  | security
  | observability
  | usage
  | user
  | finops
  | models
  | drift
  | audit
  | lineage
  deriving DecidableEq, Repr

section
variable {F : Type} (toRfc3339 : Instant → String) (st : ExportStorage F) (from_ to_ : Instant)

/-- `max_rows.saturating_add(1)` -/
def queryLimit (maxRows : Option Nat) : Option Nat := maxRows.map fun limit => min (limit + 1) (2 ^ 64 - 1)

def dataExportLimited (maxRows : Option Nat) : Result (DataExport F) := do
  let auditEvents ← auditEventsBetweenLimited toRfc3339 st from_ to_ (queryLimit maxRows)
  let usageEvents ← usageEventsBetweenLimited toRfc3339 st from_ to_ (queryLimit maxRows)
  let observationEvents ← observationEventsBetweenLimited toRfc3339 st from_ to_ (queryLimit maxRows)
  let quotaDecisions ← quotaDecisionsBetweenLimited toRfc3339 st from_ to_ (queryLimit maxRows)
  let lineage ← requestLineageJoinsBetweenLimited toRfc3339 st from_ to_ (queryLimit maxRows)
  ensureAll [("audit", auditEvents.length), ("usage", usageEvents.length), ("observability", observationEvents.length),
    ("quota", quotaDecisions.length), ("lineage", lineage.length)] maxRows
  let models ← st.listModels
  pure (dataExport from_ to_
    { auditEvents, usageEvents, observationEvents, quotaDecisions, models := models.map .fromRecord, lineage })

def datasetLimited (dataset : DatasetKind) (maxRows : Option Nat) : Result (Datasets F) :=
  match dataset with
  | .security => do
    let auditEvents ← auditEventsBetweenLimited toRfc3339 st from_ to_ (queryLimit maxRows)
    let quotaDecisions ← quotaDecisionsBetweenLimited toRfc3339 st from_ to_ (queryLimit maxRows)
    ensureAll [("audit", auditEvents.length), ("quota", quotaDecisions.length)] maxRows
    pure { auditEvents, quotaDecisions }
  | .observability | .drift => do
    let observationEvents ← observationEventsBetweenLimited toRfc3339 st from_ to_ (queryLimit maxRows)
    ensureAll [("observability", observationEvents.length)] maxRows
    pure { observationEvents }
  | .usage | .user | .finops => do
    let usageEvents ← usageEventsBetweenLimited toRfc3339 st from_ to_ (queryLimit maxRows)
    ensureAll [("usage", usageEvents.length)] maxRows
    pure { usageEvents }
  | .models => do
    let models ← st.listModels
    ensureAll [("models", (models.map ExportModelInventoryRecord.fromRecord).length)] maxRows
    pure { models := models.map .fromRecord }
  | .lineage => do
    let lineage ← requestLineageJoinsBetweenLimited toRfc3339 st from_ to_ (queryLimit maxRows)
    ensureAll [("lineage", lineage.length)] maxRows
    pure { lineage }
  | .audit => do
    let auditEvents ← auditEventsBetweenLimited toRfc3339 st from_ to_ (queryLimit maxRows)
    ensureAll [("audit", auditEvents.length)] maxRows
    pure { auditEvents }

def dataExportDatasetLimited (dataset : DatasetKind) (maxRows : Option Nat) : Result (DataExport F) := do
  let datasets ← datasetLimited toRfc3339 st from_ to_ dataset maxRows
  pure (dataExport from_ to_ datasets)

end

end Llmctl
