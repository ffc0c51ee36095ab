import Llmctl.Reporting.Export
import Llmctl.Text.Document

/-!
# Columnar exports

JSON rows as Arrow record batches under the contract of a dataset. What `as_f64` makes of a
number and what `chrono` reads in a text are parameters; a writer keeps the batches it is
given.
-/

namespace Llmctl.DataFabric

/-! ## Contracts -/

structure FieldContract where
  name : String
  dataType : String
  nullable : Bool
  deriving DecidableEq, Repr

structure DataContract where
  fields : List FieldContract
  deriving DecidableEq, Repr

def fieldsFor : DatasetKind → List FieldContract
  | .security =>
    [⟨"at", "timestamp[ms, tz=UTC]", false⟩, ⟨"kind", "utf8", false⟩, ⟨"actor", "utf8", true⟩, ⟨"team", "utf8", true⟩,
      ⟨"resource", "utf8", true⟩, ⟨"outcome", "utf8", true⟩, ⟨"request_id", "utf8", true⟩]
  | .observability =>
    [⟨"at", "timestamp[ms, tz=UTC]", false⟩, ⟨"kind", "utf8", false⟩, ⟨"source", "utf8", false⟩, ⟨"model", "utf8", true⟩,
      ⟨"value", "float64", false⟩, ⟨"unit", "utf8", false⟩, ⟨"request_id", "utf8", true⟩]
  | .usage =>
    [⟨"at", "timestamp[ms, tz=UTC]", false⟩, ⟨"request_id", "utf8", false⟩, ⟨"model", "utf8", false⟩,
      ⟨"actor", "utf8", false⟩, ⟨"team", "utf8", false⟩, ⟨"input_tokens", "uint64", false⟩,
      ⟨"output_tokens", "uint64", false⟩, ⟨"latency_ms", "uint64", false⟩, ⟨"status", "utf8", false⟩]
  | .user =>
    [⟨"actor", "utf8", false⟩, ⟨"team", "utf8", false⟩, ⟨"request_count", "uint64", false⟩, ⟨"input_tokens", "uint64", false⟩,
      ⟨"output_tokens", "uint64", false⟩, ⟨"total_tokens", "uint64", false⟩]
  | .finops =>
    [⟨"team", "utf8", true⟩, ⟨"actor", "utf8", true⟩, ⟨"model", "utf8", true⟩, ⟨"request_count", "uint64", false⟩,
      ⟨"total_tokens", "uint64", false⟩, ⟨"total_latency_ms", "uint64", false⟩]
  | .models =>
    [⟨"alias", "utf8", false⟩, ⟨"role", "utf8", false⟩, ⟨"weight", "uint32", false⟩,
      ⟨"updated_at", "timestamp[ms, tz=UTC]", true⟩]
  | .drift =>
    [⟨"at", "timestamp[ms, tz=UTC]", false⟩, ⟨"kind", "utf8", false⟩, ⟨"model", "utf8", true⟩, ⟨"value", "float64", false⟩,
      ⟨"unit", "utf8", false⟩, ⟨"request_id", "utf8", true⟩]
  | .audit =>
    [⟨"at", "timestamp[ms, tz=UTC]", false⟩, ⟨"action", "utf8", false⟩, ⟨"actor", "utf8", false⟩, ⟨"team", "utf8", false⟩,
      ⟨"resource", "utf8", false⟩, ⟨"outcome", "utf8", false⟩, ⟨"request_id", "utf8", true⟩]
  | .lineage =>
    [⟨"at", "timestamp[ms, tz=UTC]", false⟩, ⟨"request_id", "utf8", false⟩, ⟨"lineage_id", "utf8", false⟩,
      ⟨"model", "utf8", true⟩, ⟨"corpus", "utf8", true⟩, ⟨"source", "utf8", false⟩]

def contractFor (dataset : DatasetKind) : DataContract := ⟨fieldsFor dataset⟩

/-- `starts_with("timestamp")` -/
def isTimestamp (dataType : String) : Bool := "timestamp".toList.isPrefixOf dataType.toList

/-! ## Arrow -/

inductive TimeUnit where
  | second
  | millisecond
  | microsecond
  | nanosecond
  deriving DecidableEq, Repr

inductive DataType where
  | timestamp (unit : TimeUnit) (timezone : Option String)
  | uint64
  | uint32
  | float64
  | utf8
  deriving DecidableEq, Repr

structure Field where
  name : String
  dataType : DataType
  nullable : Bool
  deriving DecidableEq, Repr

abbrev Schema := List Field

/-- A value of a column. -/
inductive Cell (F : Type) where
  | timestamp (millis : Int)
  | uint64 (n : Nat)
  | uint32 (n : Nat)
  | float64 (x : F)
  | utf8 (s : String)
  deriving DecidableEq, Repr

inductive ArrayRef (F : Type) where
  | timestampMillisecond (timezone : Option String) (values : List (Option Int))
  | uint64 (values : List (Option Nat))
  | uint32 (values : List (Option Nat))
  | float64 (values : List (Option F))
  | string (values : List (Option String))
  deriving DecidableEq, Repr

namespace ArrayRef

variable {F : Type}

def dataType : ArrayRef F → DataType
  | timestampMillisecond timezone _ => .timestamp .millisecond timezone
  | uint64 _ => .uint64
  | uint32 _ => .uint32
  | float64 _ => .float64
  | string _ => .utf8

def cells : ArrayRef F → List (Option (Cell F))
  | timestampMillisecond _ values => values.map (Option.map .timestamp)
  | uint64 values => values.map (Option.map .uint64)
  | uint32 values => values.map (Option.map .uint32)
  | float64 values => values.map (Option.map .float64)
  | string values => values.map (Option.map .utf8)

def len (column : ArrayRef F) : Nat := column.cells.length

def nullCount (column : ArrayRef F) : Nat := column.cells.countP Option.isNone

end ArrayRef

/-- What `RecordBatch::try_new` asks of its columns. -/
structure Fits {F : Type} (schema : Schema) (columns : List (ArrayRef F)) : Prop where
  lengths : ∀ c ∈ columns, ∀ d ∈ columns, c.len = d.len
  dataTypes : columns.map ArrayRef.dataType = schema.map Field.dataType
  nulls : ∀ p ∈ schema.zip columns, p.1.nullable = false → p.2.nullCount = 0

instance {F : Type} (schema : Schema) (columns : List (ArrayRef F)) : Decidable (Fits schema columns) :=
  decidable_of_iff ((∀ c ∈ columns, ∀ d ∈ columns, c.len = d.len) ∧
      columns.map ArrayRef.dataType = schema.map Field.dataType ∧
      ∀ p ∈ schema.zip columns, p.1.nullable = false → p.2.nullCount = 0)
    ⟨fun ⟨h, h', h''⟩ => ⟨h, h', h''⟩, fun ⟨h, h', h''⟩ => ⟨h, h', h''⟩⟩

structure RecordBatch (F : Type) where
  schema : Schema
  columns : List (ArrayRef F)
  fits : Fits schema columns

/-- The text of the error is not the one of the library. -/
def RecordBatch.tryNew {F : Type} (schema : Schema) (columns : List (ArrayRef F)) : Result (RecordBatch F) :=
  if h : Fits schema columns then .ok ⟨schema, columns, h⟩ else .error "invalid argument"

/-- A moment as `DateTime<Utc>` counts it, in seconds of the Unix time. -/
structure DateTime where
  timestamp : Int
  nanosecond : Nat
  deriving DecidableEq, Repr

def DateTime.timestampMillis (t : DateTime) : Int := t.timestamp * 1000 + (t.nanosecond / 1000000 : Nat)

/-! ## Arrays of rows -/

def arrowType (dataType : String) : DataType :=
  if isTimestamp dataType then .timestamp .millisecond (some "UTC")
  else if dataType = "uint64" then .uint64
  else if dataType = "uint32" then .uint32
  else if dataType = "float64" then .float64
  else .utf8

def arrowSchema (contract : DataContract) : Schema :=
  contract.fields.map fun field => ⟨field.name, arrowType field.dataType, field.nullable⟩

def optionalString : Option Value → Option String
  | some (.string value) => some value
  | some .null => none
  | none => none
  | some value => some value.render

def optionalU64 : Option Value → Result (Option Nat)
  | some (.number text) =>
    match (Value.number text).asU64 with
    | some n => .ok (some n)
    | none => .error "expected unsigned integer"
  | some .null => .ok none
  | none => .ok none
  | some value => .error s!"expected unsigned integer, got {value.render}"

def optionalU32 (value : Option Value) : Result (Option Nat) := do
  match ← optionalU64 value with
  | none => .ok none
  | some n => if n < 2 ^ 32 then .ok (some n) else .error "uint32 value is out of range"

section
variable {F : Type} (asF64 : String → F) (parseFromRfc3339 : String → Result DateTime)

def optionalF64 : Option Value → Result (Option F)
  | some (.number text) => .ok (some (asF64 text))
  | some .null => .ok none
  | none => .ok none
  | some value => .error s!"expected float, got {value.render}"

/-- The error of `parse_from_rfc3339` is the one that `timestamp_millis` makes of it. -/
def timestampMillis (value : Option Value) : Result (Option Int) :=
  match value.bind Value.asStr with
  | none => .ok none
  | some value => do
    let parsed ← parseFromRfc3339 value
    .ok (some parsed.timestampMillis)

/-- Whether a value that is not null matches the type of a field. -/
def FieldContract.valid (field : FieldContract) (value : Value) : Bool :=
  if isTimestamp field.dataType then (value.asStr.bind fun text => (parseFromRfc3339 text).toOption).isSome
  else if field.dataType = "uint64" then value.asU64.isSome
  else if field.dataType = "uint32" then value.asU64.any (· < 2 ^ 32)
  else if field.dataType = "float64" then (match value with | .number _ => true | _ => false)
  else if field.dataType = "utf8" then value.asStr.isSome
  else true

def validateFrom (field : FieldContract) : Nat → List Value → Result Unit
  | _, [] => .ok ()
  | index, row :: rows =>
    match row.get field.name with
    | none | some .null =>
      if field.nullable then validateFrom field (index + 1) rows
      else .error s!"row {index} missing required field `{field.name}` for data contract"
    | some value =>
      if field.valid parseFromRfc3339 value then validateFrom field (index + 1) rows
      else .error s!"row {index} field `{field.name}` does not match data contract type `{field.dataType}`"

def validateFieldValues (field : FieldContract) (rows : List Value) : Result Unit := validateFrom parseFromRfc3339 field 0 rows

def arrayForField (field : FieldContract) (rows : List Value) : Result (ArrayRef F) := do
  validateFieldValues parseFromRfc3339 field rows
  if isTimestamp field.dataType then
    -- `TimestampMillisecondArray::from` knows no time zone.
    let values ← rows.mapM fun row => timestampMillis parseFromRfc3339 (row.get field.name)
    .ok (.timestampMillisecond none values)
  else if field.dataType = "uint64" then
    let values ← rows.mapM fun row => optionalU64 (row.get field.name)
    .ok (.uint64 values)
  else if field.dataType = "uint32" then
    let values ← rows.mapM fun row => optionalU32 (row.get field.name)
    .ok (.uint32 values)
  else if field.dataType = "float64" then
    let values ← rows.mapM fun row => optionalF64 asF64 (row.get field.name)
    .ok (.float64 values)
  else .ok (.string (rows.map fun row => optionalString (row.get field.name)))

def recordBatchWithSchema (contract : DataContract) (schema : Schema) (rows : List Value) : Result (RecordBatch F) := do
  let columns ← contract.fields.mapM fun field => arrayForField asF64 parseFromRfc3339 field rows
  RecordBatch.tryNew schema columns

end

/-! ## Writing -/

/-- `slice::chunks` -/
def chunks {α : Type} (size : Nat) : List α → List (List α)
  | [] => []
  | row :: rows => (row :: rows.take (size - 1)) :: chunks size (rows.drop (size - 1))
termination_by rows => rows.length

def defaultArrowBatchRows : Nat := 8192

section
variable {F : Type} (asF64 : String → F) (parseFromRfc3339 : String → Result DateTime)

/-- The batches in a file, and the count of its rows. -/
def writeBatches (contract : DataContract) (rows : List Value) : Result (List (RecordBatch F) × Nat) := do
  let schema := arrowSchema contract
  let batches ←
    if rows.isEmpty then [rows].mapM (recordBatchWithSchema asF64 parseFromRfc3339 contract schema)
    else (chunks defaultArrowBatchRows rows).mapM (recordBatchWithSchema asF64 parseFromRfc3339 contract schema)
  .ok (batches, rows.length)

def writeArrowIpc (contract : DataContract) (rows : List Value) : Result (List (RecordBatch F) × Nat) :=
  writeBatches asF64 parseFromRfc3339 contract rows

def writeParquet (contract : DataContract) (rows : List Value) : Result (List (RecordBatch F) × Nat) :=
  writeBatches asF64 parseFromRfc3339 contract rows

end

end Llmctl.DataFabric
