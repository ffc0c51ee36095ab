import Llmctl.Reporting.Export

/-!
# The tables

Ids, times and documents are stored as texts, counts as signed integers. The calls of
`Storage` that are one statement each, on the tables that they read and write. Texts
compare by their bytes, as in SQLite and under the C collation of Postgres.
-/

namespace Llmctl.Tables

open Calendar

/-- What the crates for UUIDs, times and JSON write and read. A float that is not a number
cannot stand in every column. -/
structure Encoding (U J F : Type) where
  uuidText : U → String
  parseStr : String → Option U
  toRfc3339 : Instant → String
  parseFromRfc3339 : String → Option Instant
  jsonText : J → String
  fromStr : String → Option J
  isNan : F → Bool

inductive StorageError where
  | outOfRange
  | constraint
  | overflow
  | statement
  | uuid (value : String)
  | time (value : String)
  | json (value : String)
  | field (name : String)
  deriving DecidableEq, Repr

abbrev StorageResult := Except StorageError

/-! ## Records -/

structure Record (U C : Type) where
  id : U
  at_ : Instant
  columns : C

structure AuditColumns (U J : Type) where
  requestId : Option U
  actor : String
  team : String
  action : String
  resource : String
  outcome : String
  detailJson : J

structure UsageColumns (U : Type) where
  requestId : U
  model : String
  actor : String
  team : String
  inputTokens : UInt64
  outputTokens : UInt64
  latencyMs : UInt64
  status : String

structure ObservationColumns (U J F : Type) where
  requestId : Option U
  kind : String
  model : String
  source : String
  value : F
  unit : String
  attributesJson : J

structure QuotaColumns (U J : Type) where
  requestId : Option U
  actor : String
  team : String
  model : String
  allowed : Bool
  reason : String
  policyJson : J

structure LineageColumns (U : Type) where
  requestId : U
  lineageId : String
  model : Option String
  corpus : Option String
  source : String

structure ModelRecord where
  alias_ : String
  path : String
  role : String
  weight : UInt32
  updatedAt : Instant

/-! ## Cells -/

structure AuditCells where
  requestId : Option String
  actor : String
  team : String
  action : String
  resource : String
  outcome : String
  detailJson : String

structure UsageCells where
  requestId : String
  model : String
  actor : String
  team : String
  inputTokens : Int
  outputTokens : Int
  latencyMs : Int
  status : String

structure ObservationCells (F : Type) where
  requestId : Option String
  kind : String
  model : String
  source : String
  value : F
  unit : String
  attributesJson : String

/-- SQLite has no type of its own for truth values. -/
inductive BoolCell where
  | integer (value : Int)
  | boolean (value : Bool)
  deriving DecidableEq, Repr

structure QuotaCells where
  requestId : Option String
  actor : String
  team : String
  model : String
  allowed : BoolCell
  reason : String
  policyJson : String

structure LineageCells where
  requestId : String
  lineageId : String
  model : Option String
  corpus : Option String
  source : String

structure ModelRow where
  alias_ : String
  path : String
  role : String
  weight : Int
  updatedAt : String

/-! ## Values -/

def i64TryFrom (value : UInt64) : StorageResult Int :=
  if value.toNat < 2 ^ 63 then .ok value.toNat else .error .outOfRange

def i64ToU64 (value : Int) (field : String) : StorageResult UInt64 :=
  if 0 ≤ value then .ok (UInt64.ofNat value.toNat) else .error (.field field)

def i64ToU32 (value : Int) (field : String) : StorageResult UInt32 :=
  if 0 ≤ value ∧ value < 2 ^ 32 then .ok (UInt32.ofNat value.toNat) else .error (.field field)

end Llmctl.Tables

namespace Llmctl

/-- The largest value of an `INTEGER` column. -/
def SqlDialect.integerMax : SqlDialect → Int
  | .sqlite => 2 ^ 63 - 1
  | .postgres => 2 ^ 31 - 1

/-- A text of Postgres has no NUL. -/
def SqlDialect.takes (dialect : SqlDialect) (texts : List String) : Bool :=
  dialect == .sqlite || texts.all fun text => !text.toList.contains (Char.ofNat 0)

def SqlDialect.boolCell : SqlDialect → Bool → Tables.BoolCell
  | .sqlite, value => .integer (if value then 1 else 0)
  | .postgres, value => .boolean value

/-- `allowed = 1`, or `allowed = TRUE` -/
def SqlDialect.isTrue (dialect : SqlDialect) (cell : Tables.BoolCell) : Bool :=
  match dialect with
  | .sqlite => cell == .integer 1
  | .postgres => cell == .boolean true

end Llmctl

namespace Llmctl.Tables

open Calendar

def BoolCell.get : BoolCell → Bool
  | .integer value => value != 0
  | .boolean value => value

section
variable {U J F : Type} (enc : Encoding U J F)

def parseUuid (value : String) : StorageResult U :=
  match enc.parseStr value with
  | some id => .ok id
  | none => .error (.uuid value)

def parseOptionalUuid : Option String → StorageResult (Option U)
  | none => .ok none
  | some value => (parseUuid enc value).map some

def readTime (value : String) : StorageResult Instant :=
  match parseTime enc.parseFromRfc3339 value with
  | some at_ => .ok at_
  | none => .error (.time value)

def parseJson (value : String) : StorageResult J :=
  match enc.fromStr value with
  | some document => .ok document
  | none => .error (.json value)

/-! ## Tables -/

/-- How one table stores its columns: what is bound, what the table takes, what is read.
The crates write no NUL in what they encode. -/
structure Codec (U C K : Type) where
  bind : C → StorageResult K
  fits : K → Bool
  read : K → StorageResult C
  request : C → Option U
  requestCell : K → Option String

variable (dialect : SqlDialect)

def AuditCells.texts (k : AuditCells) : List String := [k.actor, k.team, k.action, k.resource, k.outcome]

def UsageCells.texts (k : UsageCells) : List String := [k.model, k.actor, k.team, k.status]

def ObservationCells.texts (k : ObservationCells F) : List String := [k.kind, k.model, k.source, k.unit]

def QuotaCells.texts (k : QuotaCells) : List String := [k.actor, k.team, k.model, k.reason]

def LineageCells.texts (k : LineageCells) : List String := [k.lineageId, k.source] ++ k.model.toList ++ k.corpus.toList

def auditCodec : Codec U (AuditColumns U J) AuditCells where
  bind c := .ok
    { requestId := c.requestId.map enc.uuidText, actor := c.actor, team := c.team, action := c.action,
      resource := c.resource, outcome := c.outcome, detailJson := enc.jsonText c.detailJson }
  fits k := dialect.takes k.texts
  read k := do
    let requestId ← parseOptionalUuid enc k.requestId
    let detailJson ← parseJson enc k.detailJson
    pure ⟨requestId, k.actor, k.team, k.action, k.resource, k.outcome, detailJson⟩
  request c := c.requestId
  requestCell k := k.requestId

/-- Beside the checks, the columns of Postgres are 32 bits wide. -/
def usageCodec : Codec U (UsageColumns U) UsageCells where
  bind c := do
    let inputTokens ← i64TryFrom c.inputTokens
    let outputTokens ← i64TryFrom c.outputTokens
    let latencyMs ← i64TryFrom c.latencyMs
    pure ⟨enc.uuidText c.requestId, c.model, c.actor, c.team, inputTokens, outputTokens, latencyMs, c.status⟩
  fits k := dialect.takes k.texts &&
    [k.inputTokens, k.outputTokens, k.latencyMs].all fun value => decide (0 ≤ value ∧ value ≤ dialect.integerMax)
  read k := do
    let requestId ← parseUuid enc k.requestId
    let inputTokens ← i64ToU64 k.inputTokens "input_tokens"
    let outputTokens ← i64ToU64 k.outputTokens "output_tokens"
    let latencyMs ← i64ToU64 k.latencyMs "latency_ms"
    pure ⟨requestId, k.model, k.actor, k.team, inputTokens, outputTokens, latencyMs, k.status⟩
  request c := some c.requestId
  requestCell k := some k.requestId

/-- SQLite takes what is not a number for no value at all. -/
def observationCodec : Codec U (ObservationColumns U J F) (ObservationCells F) where
  bind c := .ok
    { requestId := c.requestId.map enc.uuidText, kind := c.kind, model := c.model, source := c.source,
      value := c.value, unit := c.unit, attributesJson := enc.jsonText c.attributesJson }
  fits k := dialect.takes k.texts && (dialect == .postgres || !enc.isNan k.value)
  read k := do
    let requestId ← parseOptionalUuid enc k.requestId
    let attributesJson ← parseJson enc k.attributesJson
    pure ⟨requestId, k.kind, k.model, k.source, k.value, k.unit, attributesJson⟩
  request c := c.requestId
  requestCell k := k.requestId

def quotaCodec : Codec U (QuotaColumns U J) QuotaCells where
  bind c := .ok
    { requestId := c.requestId.map enc.uuidText, actor := c.actor, team := c.team, model := c.model,
      allowed := dialect.boolCell c.allowed, reason := c.reason, policyJson := enc.jsonText c.policyJson }
  fits k := dialect.takes k.texts && (dialect == .postgres || k.allowed == .integer 0 || k.allowed == .integer 1)
  read k := do
    let requestId ← parseOptionalUuid enc k.requestId
    let policyJson ← parseJson enc k.policyJson
    pure ⟨requestId, k.actor, k.team, k.model, k.allowed.get, k.reason, policyJson⟩
  request c := c.requestId
  requestCell k := k.requestId

def lineageCodec : Codec U (LineageColumns U) LineageCells where
  bind c := .ok ⟨enc.uuidText c.requestId, c.lineageId, c.model, c.corpus, c.source⟩
  fits k := dialect.takes k.texts
  read k := do
    let requestId ← parseUuid enc k.requestId
    pure ⟨requestId, k.lineageId, k.model, k.corpus, k.source⟩
  request c := some c.requestId
  requestCell k := some k.requestId

/-! ## Statements -/

section
variable {C K : Type} (codec : Codec U C K)

/-- The id is the primary key. -/
def insertEvent (event : Record U C) (rows : List (Row K)) : StorageResult Unit × List (Row K) :=
  match codec.bind event.columns with
  | .error err => (.error err, rows)
  | .ok cells =>
    if codec.fits cells && !rows.any (·.id == enc.uuidText event.id) then
      (.ok (), rows ++ [⟨enc.uuidText event.id, encodeTime enc.toRfc3339 event.at_, cells⟩])
    else (.error .constraint, rows)

def readRow (row : Row K) : StorageResult (Record U C) := do
  let id ← parseUuid enc row.id
  let at_ ← readTime enc row.at_
  let columns ← codec.read row.columns
  pure ⟨id, at_, columns⟩

/-- A limit is a 64-bit integer for the database. -/
def limited {A : Type} (limit : Option Nat) (selected : List A) : StorageResult (List A) :=
  match limitClause limit with
  | none => .ok selected
  | some limit => if limit < 2 ^ 63 then .ok (selected.take limit) else .error .statement

def eventsBetweenLimited (rows : List (Row K)) (from_ to_ : Instant) (limit : Option Nat) :
    StorageResult (List (Record U C)) := do
  let selected ← limited limit (rowsBetween enc.toRfc3339 rows from_ to_)
  selected.mapM (readRow enc codec)

def eventsForRequest (rows : List (Row K)) (requestId : U) : StorageResult (List (Record U C)) :=
  ((rows.filter fun row => codec.requestCell row.columns == some (enc.uuidText requestId)).insertionSort
    Row.Before).mapM (readRow enc codec)

def allEvents (rows : List (Row K)) : StorageResult (List (Record U C)) :=
  (rows.insertionSort Row.Before).mapM (readRow enc codec)

end

structure RetentionCounts where
  total : Nat
  inRetentionWindow : Nat
  outsideRetentionWindow : Nat
  deriving DecidableEq, Repr

def auditRetentionCounts (rows : List (Row AuditCells)) (cutoff : Instant) : RetentionCounts where
  total := rows.length
  inRetentionWindow := rows.countP fun row => decide (encodeTime enc.toRfc3339 cutoff ≤ row.at_)
  outsideRetentionWindow := rows.countP fun row => decide (row.at_ < encodeTime enc.toRfc3339 cutoff)

/-- The rows that are left, and how many are gone. -/
def deleteAuditEventsBefore (rows : List (Row AuditCells)) (cutoff : Instant) : Nat × List (Row AuditCells) :=
  let old : Row AuditCells → Bool := fun row => decide (row.at_ < encodeTime enc.toRfc3339 cutoff)
  (rows.countP old, rows.filter fun row => !old row)

def scopeValue (principal : Principal) (subjectScoped : Bool) : String :=
  if subjectScoped then principal.subject else principal.team

/-- `actor = ?` or `team = ?` -/
def inScope (principal : Principal) (subjectScoped : Bool) (actor team : String) : Bool :=
  (if subjectScoped then actor else team) == scopeValue principal subjectScoped

def allowedQuotaDecisions (rows : List (Row QuotaCells)) (principal : Principal) (subjectScoped : Bool)
    (from_ to_ : Instant) : StorageResult Nat :=
  if dialect.takes [scopeValue principal subjectScoped] then
    .ok <| rows.countP fun row => dialect.isTrue row.columns.allowed && inWindow enc.toRfc3339 from_ to_ row &&
      inScope principal subjectScoped row.columns.actor row.columns.team
  else .error .statement

/-- A sum beyond the integers of the database is an error. -/
def usageTokens (rows : List (Row UsageCells)) (principal : Principal) (subjectScoped : Bool)
    (from_ to_ : Instant) : StorageResult Nat :=
  let selected := rows.filter fun row => inWindow enc.toRfc3339 from_ to_ row &&
    inScope principal subjectScoped row.columns.actor row.columns.team
  let sums := selected.map fun row => row.columns.inputTokens + row.columns.outputTokens
  if !dialect.takes [scopeValue principal subjectScoped] then .error .statement
  else if (sums.all fun sum => decide (sum ≤ dialect.integerMax)) && decide (sums.sum < 2 ^ 63) then .ok sums.sum.toNat
  else .error .overflow

def upsertModelRecord (model : ModelRecord) (rows : List ModelRow) : StorageResult Unit × List ModelRow :=
  let row : ModelRow :=
    ⟨model.alias_, model.path, model.role, model.weight.toNat, encodeTime enc.toRfc3339 model.updatedAt⟩
  if dialect.takes [row.alias_, row.path, row.role] ∧ row.weight ≤ dialect.integerMax then
    if rows.any (·.alias_ == row.alias_) then (.ok (), rows.map fun old => if (old.alias_ == row.alias_) = true then row else old)
    else (.ok (), rows ++ [row])
  else (.error .constraint, rows)

def readModelRow (row : ModelRow) : StorageResult ModelRecord := do
  let weight ← i64ToU32 row.weight "weight"
  let updatedAt ← readTime enc row.updatedAt
  pure ⟨row.alias_, row.path, row.role, weight, updatedAt⟩

def ModelRow.Before (left right : ModelRow) : Prop := left.alias_ ≤ right.alias_

instance : DecidableRel ModelRow.Before := fun left right => inferInstanceAs (Decidable (left.alias_ ≤ right.alias_))

def listModels (rows : List ModelRow) : StorageResult (List ModelRecord) :=
  (rows.insertionSort ModelRow.Before).mapM (readModelRow enc)

end

/-! ## Calls -/

structure Database (F : Type) where
  auditEvents : List (Row AuditCells) := []
  usageEvents : List (Row UsageCells) := []
  observationEvents : List (Row (ObservationCells F)) := []
  quotaDecisions : List (Row QuotaCells) := []
  requestLineageJoins : List (Row LineageCells) := []
  modelInventory : List ModelRow := []

inductive StorageCall (U J F : Type) where
  | insertAuditEvent (event : Record U (AuditColumns U J))
  | insertUsageEvent (event : Record U (UsageColumns U))
  | insertObservationEvent (event : Record U (ObservationColumns U J F))
  | insertQuotaDecision (decision : Record U (QuotaColumns U J))
  | insertRequestLineageJoin (record : Record U (LineageColumns U))
  | upsertModelRecord (model : ModelRecord)
  | deleteAuditEventsBefore (cutoff : Instant)
  | auditEventsBetween (from_ to_ : Instant) (limit : Option Nat)
  | usageEventsBetween (from_ to_ : Instant) (limit : Option Nat)
  | observationEventsBetween (from_ to_ : Instant) (limit : Option Nat)
  | quotaDecisionsBetween (from_ to_ : Instant) (limit : Option Nat)
  | requestLineageJoinsBetween (from_ to_ : Instant) (limit : Option Nat)
  | auditEventsForRequest (requestId : U)
  | usageEventsForRequest (requestId : U)
  | observationEventsForRequest (requestId : U)
  | quotaDecisionsForRequest (requestId : U)
  | requestLineageJoinsForRequest (requestId : U)
  | requestLineageJoins
  | auditRetentionCounts (cutoff : Instant)
  | allowedQuotaDecisionCount (principal : Principal) (subjectScoped : Bool) (from_ to_ : Instant)
  | usageTokensTotal (principal : Principal) (subjectScoped : Bool) (from_ to_ : Instant)
  | listModels

inductive StorageAnswer (U J F : Type) where
  | done
  | count (n : Nat)
  | counts (counts : RetentionCounts)
  | audit (events : List (Record U (AuditColumns U J)))
  | usage (events : List (Record U (UsageColumns U)))
  | observation (events : List (Record U (ObservationColumns U J F)))
  | quota (decisions : List (Record U (QuotaColumns U J)))
  | lineage (records : List (Record U (LineageColumns U)))
  | models (models : List ModelRecord)

section
variable {U J F : Type} (enc : Encoding U J F) (dialect : SqlDialect)

def Database.call (db : Database F) : StorageCall U J F → StorageResult (StorageAnswer U J F) × Database F
  | .insertAuditEvent event =>
    let (result, auditEvents) := insertEvent enc (auditCodec enc dialect) event db.auditEvents
    (result.map fun _ => .done, { db with auditEvents })
  | .insertUsageEvent event =>
    let (result, usageEvents) := insertEvent enc (usageCodec enc dialect) event db.usageEvents
    (result.map fun _ => .done, { db with usageEvents })
  | .insertObservationEvent event =>
    let (result, observationEvents) := insertEvent enc (observationCodec enc dialect) event db.observationEvents
    (result.map fun _ => .done, { db with observationEvents })
  | .insertQuotaDecision decision =>
    let (result, quotaDecisions) := insertEvent enc (quotaCodec enc dialect) decision db.quotaDecisions
    (result.map fun _ => .done, { db with quotaDecisions })
  | .insertRequestLineageJoin record =>
    let (result, requestLineageJoins) := insertEvent enc (lineageCodec enc dialect) record db.requestLineageJoins
    (result.map fun _ => .done, { db with requestLineageJoins })
  | .upsertModelRecord model =>
    let (result, modelInventory) := upsertModelRecord enc dialect model db.modelInventory
    (result.map fun _ => .done, { db with modelInventory })
  | .deleteAuditEventsBefore cutoff =>
    let (deleted, auditEvents) := deleteAuditEventsBefore enc db.auditEvents cutoff
    (.ok (.count deleted), { db with auditEvents })
  | .auditEventsBetween from_ to_ limit =>
    ((eventsBetweenLimited enc (auditCodec enc dialect) db.auditEvents from_ to_ limit).map .audit, db)
  | .usageEventsBetween from_ to_ limit =>
    ((eventsBetweenLimited enc (usageCodec enc dialect) db.usageEvents from_ to_ limit).map .usage, db)
  | .observationEventsBetween from_ to_ limit =>
    ((eventsBetweenLimited enc (observationCodec enc dialect) db.observationEvents from_ to_ limit).map .observation, db)
  | .quotaDecisionsBetween from_ to_ limit =>
    ((eventsBetweenLimited enc (quotaCodec enc dialect) db.quotaDecisions from_ to_ limit).map .quota, db)
  | .requestLineageJoinsBetween from_ to_ limit =>
    ((eventsBetweenLimited enc (lineageCodec enc dialect) db.requestLineageJoins from_ to_ limit).map .lineage, db)
  | .auditEventsForRequest requestId => ((eventsForRequest enc (auditCodec enc dialect) db.auditEvents requestId).map .audit, db)
  | .usageEventsForRequest requestId =>
    ((eventsForRequest enc (usageCodec enc dialect) db.usageEvents requestId).map .usage, db)
  | .observationEventsForRequest requestId =>
    ((eventsForRequest enc (observationCodec enc dialect) db.observationEvents requestId).map .observation, db)
  | .quotaDecisionsForRequest requestId =>
    ((eventsForRequest enc (quotaCodec enc dialect) db.quotaDecisions requestId).map .quota, db)
  | .requestLineageJoinsForRequest requestId =>
    ((eventsForRequest enc (lineageCodec enc dialect) db.requestLineageJoins requestId).map .lineage, db)
  | .requestLineageJoins => ((allEvents enc (lineageCodec enc dialect) db.requestLineageJoins).map .lineage, db)
  | .auditRetentionCounts cutoff => (.ok (.counts (auditRetentionCounts enc db.auditEvents cutoff)), db)
  | .allowedQuotaDecisionCount principal subjectScoped from_ to_ =>
    ((allowedQuotaDecisions enc dialect db.quotaDecisions principal subjectScoped from_ to_).map .count, db)
  | .usageTokensTotal principal subjectScoped from_ to_ =>
    ((usageTokens enc dialect db.usageEvents principal subjectScoped from_ to_).map .count, db)
  | .listModels => ((listModels enc db.modelInventory).map .models, db)

end

end Llmctl.Tables
