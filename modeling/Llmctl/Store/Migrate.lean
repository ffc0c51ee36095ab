import Llmctl.Async.World
import Llmctl.Store

/-!
# Migrations

`migrate` runs the statements of the plan and then adds the column that tables of before do
not have. Any number of processes migrate one database at a time.
-/

namespace Llmctl.Migration

open Async

/-! ## The plan -/

structure ColumnSql where
  name : String
  decl : String
  deriving DecidableEq, Repr

/-- `IF NOT EXISTS`, both of them. -/
inductive Statement where
  | createTable (table : String) (columns : List ColumnSql)
  | createIndex (index table : String) (columns : List String)
  deriving DecidableEq, Repr

def boolType : SqlDialect → String
  | .sqlite => "INTEGER"
  | .postgres => "BOOLEAN"

def floatType : SqlDialect → String
  | .sqlite => "REAL"
  | .postgres => "DOUBLE PRECISION"

def boolCheck : SqlDialect → String
  | .sqlite => " CHECK (allowed IN (0, 1))"
  | .postgres => ""

def auditTable : Statement :=
  .createTable "audit_events"
    [⟨"id", "TEXT PRIMARY KEY NOT NULL"⟩, ⟨"request_id", "TEXT"⟩, ⟨"at", "TEXT NOT NULL"⟩, ⟨"actor", "TEXT NOT NULL"⟩,
      ⟨"team", "TEXT NOT NULL"⟩, ⟨"action", "TEXT NOT NULL"⟩, ⟨"resource", "TEXT NOT NULL"⟩, ⟨"outcome", "TEXT NOT NULL"⟩,
      ⟨"detail_json", "TEXT NOT NULL"⟩]

def usageTable : Statement :=
  .createTable "usage_events"
    [⟨"id", "TEXT PRIMARY KEY NOT NULL"⟩, ⟨"request_id", "TEXT NOT NULL"⟩, ⟨"at", "TEXT NOT NULL"⟩, ⟨"model", "TEXT NOT NULL"⟩,
      ⟨"actor", "TEXT NOT NULL"⟩, ⟨"team", "TEXT NOT NULL"⟩, ⟨"input_tokens", "INTEGER NOT NULL CHECK (input_tokens >= 0)"⟩,
      ⟨"output_tokens", "INTEGER NOT NULL CHECK (output_tokens >= 0)"⟩,
      ⟨"latency_ms", "INTEGER NOT NULL CHECK (latency_ms >= 0)"⟩, ⟨"status", "TEXT NOT NULL"⟩]

def observationTable (dialect : SqlDialect) : Statement :=
  .createTable "observation_events"
    [⟨"id", "TEXT PRIMARY KEY NOT NULL"⟩, ⟨"request_id", "TEXT"⟩, ⟨"at", "TEXT NOT NULL"⟩, ⟨"kind", "TEXT NOT NULL"⟩,
      ⟨"model", "TEXT NOT NULL"⟩, ⟨"source", "TEXT NOT NULL"⟩, ⟨"value", floatType dialect ++ " NOT NULL"⟩,
      ⟨"unit", "TEXT NOT NULL"⟩, ⟨"attributes_json", "TEXT NOT NULL"⟩]

def inventoryTable : Statement :=
  .createTable "model_inventory"
    [⟨"alias", "TEXT PRIMARY KEY NOT NULL"⟩, ⟨"path", "TEXT NOT NULL"⟩, ⟨"role", "TEXT NOT NULL"⟩,
      ⟨"weight", "INTEGER NOT NULL CHECK (weight >= 0)"⟩, ⟨"updated_at", "TEXT NOT NULL"⟩]

def quotaTable (dialect : SqlDialect) : Statement :=
  .createTable "quota_decisions"
    [⟨"id", "TEXT PRIMARY KEY NOT NULL"⟩, ⟨"request_id", "TEXT"⟩, ⟨"at", "TEXT NOT NULL"⟩, ⟨"actor", "TEXT NOT NULL"⟩,
      ⟨"team", "TEXT NOT NULL"⟩, ⟨"model", "TEXT NOT NULL"⟩, ⟨"allowed", boolType dialect ++ " NOT NULL" ++ boolCheck dialect⟩,
      ⟨"reason", "TEXT NOT NULL"⟩, ⟨"policy_json", "TEXT NOT NULL"⟩]

def lineageTable : Statement :=
  .createTable "request_lineage_joins"
    [⟨"id", "TEXT PRIMARY KEY NOT NULL"⟩, ⟨"request_id", "TEXT NOT NULL"⟩, ⟨"at", "TEXT NOT NULL"⟩, ⟨"lineage_id", "TEXT NOT NULL"⟩,
      ⟨"model", "TEXT"⟩, ⟨"corpus", "TEXT"⟩, ⟨"source", "TEXT NOT NULL"⟩]

def migrationStatements (dialect : SqlDialect) : List Statement :=
  [auditTable, .createIndex "idx_audit_events_at" "audit_events" ["at"],
    .createIndex "idx_audit_events_request_id" "audit_events" ["request_id"],
    usageTable, .createIndex "idx_usage_events_at" "usage_events" ["at"],
    .createIndex "idx_usage_events_request_id" "usage_events" ["request_id"],
    .createIndex "idx_usage_events_actor_at" "usage_events" ["actor", "at"],
    .createIndex "idx_usage_events_team_at" "usage_events" ["team", "at"],
    observationTable dialect, .createIndex "idx_observation_events_at" "observation_events" ["at"],
    .createIndex "idx_observation_events_request_id" "observation_events" ["request_id"],
    inventoryTable,
    quotaTable dialect, .createIndex "idx_quota_decisions_at" "quota_decisions" ["at"],
    .createIndex "idx_quota_decisions_request_id" "quota_decisions" ["request_id"],
    .createIndex "idx_quota_decisions_actor_allowed_at" "quota_decisions" ["actor", "allowed", "at"],
    .createIndex "idx_quota_decisions_team_allowed_at" "quota_decisions" ["team", "allowed", "at"],
    lineageTable, .createIndex "idx_request_lineage_joins_request_id" "request_lineage_joins" ["request_id"],
    .createIndex "idx_request_lineage_joins_lineage_id" "request_lineage_joins" ["lineage_id"],
    .createIndex "idx_request_lineage_joins_model" "request_lineage_joins" ["model"],
    .createIndex "idx_request_lineage_joins_corpus" "request_lineage_joins" ["corpus"]]

/-! ## The database -/

/-- The columns of each table, and the names of the indexes. -/
structure Schema where
  tables : String → Option (List String)
  indexes : List String

namespace Schema

variable (dialect : SqlDialect) (schema : Schema)

/-- SQLite looks for an index of the name before it looks at the columns. -/
def execute : Statement → Result Unit × Schema
  | .createTable table columns =>
    match schema.tables table with
    | some _ => (.ok (), schema)
    | none => (.ok (), { schema with tables := Function.update schema.tables table (some (columns.map (·.name))) })
  | .createIndex index table columns =>
    match schema.tables table with
    | none => (.error s!"no such table: {table}", schema)
    | some present =>
      if dialect = .sqlite ∧ index ∈ schema.indexes then (.ok (), schema)
      else if columns.all present.contains then (.ok (), { schema with indexes := index :: schema.indexes })
      else (.error s!"no such column in {table}", schema)

def duplicateColumn : String := "error returned from database: (code: 1) duplicate column name: "

def addColumn (table column : String) : Result Unit × Schema :=
  match schema.tables table with
  | none => (.error s!"no such table: {table}", schema)
  | some present =>
    if column ∈ present then
      (if dialect = .sqlite then .error (duplicateColumn ++ column) else .ok (), schema)
    else (.ok (), { schema with tables := Function.update schema.tables table (some (present ++ [column])) })

end Schema

/-! ## The program -/

inductive MigrateOp where
  | execute (statement : Statement)
  | tableInfo (table : String)
  /-- `IF NOT EXISTS` on Postgres -/
  | addColumn (table column : String)
  deriving DecidableEq

@[reducible] def MigrateSig : Sig where
  Op := MigrateOp
  Ans
    | .execute _ | .addColumn .. => Result Unit
    | .tableInfo _ => Result (List String)

def containsText (text part : String) : Bool := text.toList.tails.any fun tail => part.toList.isPrefixOf tail

def benign (message : String) : Bool := containsText (String.ofList (message.toList.map Char.toLower)) "duplicate column"

def executeAll : List Statement → Prog MigrateSig (Result Unit)
  | [] => pure (.ok ())
  | statement :: statements => do
    match ← Prog.op (S := MigrateSig) (.execute statement) with
    | .error e => pure (.error e)
    | .ok _ => executeAll statements

/-- Another process may have added the column by now. -/
def alterTable (table column decl : String) : Prog MigrateSig (Result Unit) := do
  match ← Prog.op (S := MigrateSig) (.addColumn table column) with
  | .ok _ => pure (.ok ())
  | .error message => pure (if benign message then .ok () else .error s!"add column `{column} {decl}` to {table}")

def addColumnIfMissing (dialect : SqlDialect) (table column decl : String) : Prog MigrateSig (Result Unit) :=
  match dialect with
  | .postgres => Prog.op (S := MigrateSig) (.addColumn table column)
  | .sqlite => do
    match ← Prog.op (S := MigrateSig) (.tableInfo table) with
    | .error e => pure (.error e)
    | .ok names => if column ∈ names then pure (.ok ()) else alterTable table column decl

def migrate (dialect : SqlDialect) : Prog MigrateSig (Result Unit) := do
  match ← executeAll (migrationStatements dialect) with
  | .error e => pure (.error e)
  | .ok _ => addColumnIfMissing dialect "observation_events" "request_id" "TEXT"

/-! ## Processes -/

/-- What a process has got done. -/
structure Progress where
  executed : List Statement := []
  /-- It found or added the column, or heard that it is there. -/
  column : Bool := false
  /-- An operation failed. -/
  failed : Bool := false
  deriving DecidableEq

section
variable (dialect : SqlDialect)

namespace MigrateOp

/-- What the schema makes of an operation. -/
def answer (schema : Schema) : (o : MigrateOp) → MigrateSig.Ans o
  | .execute statement => (schema.execute dialect statement).1
  | .tableInfo table => Except.ok ((schema.tables table).getD [])
  | .addColumn table column => (schema.addColumn dialect table column).1

/-- A failure that is not about a column that is there. -/
def fault : (o : MigrateOp) → MigrateSig.Ans o → Bool
  | .execute _, .error _ | .tableInfo _, .error _ => true
  | .addColumn .., .error message => !benign message
  | .execute _, .ok _ | .tableInfo _, .ok _ | .addColumn .., .ok _ => false

def can (schema : Schema) : (o : MigrateOp) → MigrateSig.Ans o → Bool
  | .execute statement, a => a == (schema.execute dialect statement).1 || fault (.execute statement) a
  | .tableInfo table, a => a == Except.ok ((schema.tables table).getD []) || fault (.tableInfo table) a
  | .addColumn table column, a => a == (schema.addColumn dialect table column).1 || fault (.addColumn table column) a

def loc : (o : MigrateOp) → MigrateSig.Ans o → Progress → Progress
  | .execute statement, .ok _, l => { l with executed := statement :: l.executed }
  | .tableInfo _, .ok names, l => { l with column := decide ("request_id" ∈ names) }
  | .addColumn .., .ok _, l => { l with column := true }
  | .addColumn .., .error message, l => if benign message then { l with column := true } else { l with failed := true }
  | .execute _, .error _, l | .tableInfo _, .error _, l => { l with failed := true }

def sh : (o : MigrateOp) → MigrateSig.Ans o → Schema → Schema
  | .execute statement, .ok _, schema => (schema.execute dialect statement).2
  | .addColumn table column, .ok _, schema => (schema.addColumn dialect table column).2
  | _, _, schema => schema

end MigrateOp

variable (ι : Type)

/-- A process can be killed at any step. -/
def migrateWorld : World MigrateSig ι Progress Schema Empty where
  can _ o a _ schema := o.can dialect schema a
  loc _ o a l := o.loc a l
  sh _ o a _ schema := o.sh dialect a schema
  canDrop _ _ := true
  dropLoc _ _ l := l
  dropSh _ _ _ schema := schema
  canEnv e _ := e.elim
  env e _ := e.elim

def migrateStart (schema : Schema) : Conf MigrateSig (Result Unit) ι Progress Schema where
  prog _ := some (migrate dialect)
  loc _ := {}
  sh := schema

end

end Llmctl.Migration
