import Llmctl.Text.Document
import Llmctl.Text.Hex

/-!
# Report envelopes

A report is handed out with the SHA-256 of its canonical JSON. `sha256` is a parameter, and so
are the data contracts whose hashes an envelope lists.
-/

namespace Llmctl.Reporting

open Text

def reportSchemaVersion : Nat := 1

def contractSchemaVersion : Nat := 1

def serviceName : String := "rs-llmctl"

inductive ReportKind where
  | monthlyAudit
  | perRequestAudit
  | perRequestData
  | dataExport
  | chargeback
  | retentionPlan
  deriving DecidableEq, Repr

def ReportKind.name : ReportKind → String
  | .monthlyAudit => "monthly_audit"
  | .perRequestAudit => "per_request_audit"
  | .perRequestData => "per_request_data"
  | .dataExport => "data_export"
  | .chargeback => "chargeback"
  | .retentionPlan => "retention_plan"

structure ReportMetadata where
  reportKind : ReportKind
  generatedAt : String
  schemaVersion : Nat
  producer : String
  contractSchemaVersion : Nat
  /-- By the names of the datasets. -/
  contractHashes : List (String × Value)
  sha256 : String

structure ReportEnvelope where
  metadata : ReportMetadata
  payload : Value

structure EnvelopeVerification where
  status : String
  valid : Bool
  expectedSha256 : Option String
  actualSha256 : Option String
  reportKind : Option String
  schemaVersion : Option Nat
  reason : Option String
  deriving DecidableEq, Repr

section
variable (sha256 : ByteArray → List UInt8)

def canonicalSha256 (payload : Value) : String := hexEncode (sha256 payload.canonicalJson.toUTF8)

section
-- The datasets and their contracts, and how a map keeps its fields.
variable (contracts : List (String × Value)) (order : FieldOrder)

def contractHashes : List (String × Value) :=
  Value.collectFields .sorted (contracts.map fun contract => (contract.1, .string (canonicalSha256 sha256 contract.2)))

def reportEnvelopeAt (reportKind : ReportKind) (payload : Value) (generatedAt : String) : ReportEnvelope where
  metadata :=
    { reportKind, generatedAt, schemaVersion := reportSchemaVersion, producer := serviceName, contractSchemaVersion,
      contractHashes := contractHashes sha256 contracts, sha256 := canonicalSha256 sha256 payload }
  payload

def ReportMetadata.fields (metadata : ReportMetadata) : List (String × Value) :=
  [("report_kind", .string metadata.reportKind.name), ("generated_at", .string metadata.generatedAt),
    ("schema_version", .number metadata.schemaVersion.repr), ("producer", .string metadata.producer),
    ("contract_schema_version", .number metadata.contractSchemaVersion.repr),
    ("contract_hashes", .json order metadata.contractHashes), ("sha256", .string metadata.sha256)]

/-- `serde_json::to_value` -/
def ReportEnvelope.toValue (envelope : ReportEnvelope) : Value :=
  .json order [("metadata", .json order (envelope.metadata.fields order)), ("payload", envelope.payload)]

end

/-! ## Verifying -/

def asObject : Value → Option (List (String × Value))
  | .object fields => some fields
  | _ => none

def invalidEnvelope (expectedSha256 reportKind : Option String) (schemaVersion : Option Nat) (reason : String) :
    EnvelopeVerification :=
  ⟨"invalid", false, expectedSha256, none, reportKind, schemaVersion, some reason⟩

def expectedSha256 (metadata : List (String × Value)) : Option String := (Value.lookup "sha256" metadata).bind Value.asStr

def reportKind (metadata : List (String × Value)) : Option String := (Value.lookup "report_kind" metadata).bind Value.asStr

def schemaVersion (metadata : List (String × Value)) : Option Nat := (Value.lookup "schema_version" metadata).bind Value.asU64

def eqIgnoreAsciiCase (s t : String) : Bool := s.toList.map Char.toLower == t.toList.map Char.toLower

def verifyEnvelopeValue (envelope : Value) : EnvelopeVerification :=
  match (envelope.get "metadata").bind asObject with
  | none => invalidEnvelope none none none "missing metadata object"
  | some metadata =>
    match envelope.get "payload" with
    | none => invalidEnvelope (expectedSha256 metadata) (reportKind metadata) (schemaVersion metadata) "missing payload"
    | some payload =>
      match expectedSha256 metadata with
      | none => invalidEnvelope none (reportKind metadata) (schemaVersion metadata) "missing metadata sha256"
      | some expected =>
        if schemaVersion metadata ≠ some reportSchemaVersion then
          invalidEnvelope (some expected) (reportKind metadata) (schemaVersion metadata)
            "unsupported report envelope schema_version"
        else if (reportKind metadata).isNone then
          invalidEnvelope (some expected) none (schemaVersion metadata) "missing or unknown report_kind"
        else
          let actual := canonicalSha256 sha256 payload
          let valid := eqIgnoreAsciiCase expected actual
          { status := if valid then "valid" else "invalid", valid, expectedSha256 := some expected, actualSha256 := some actual,
            reportKind := reportKind metadata, schemaVersion := schemaVersion metadata,
            reason := if valid then none else some "payload sha256 mismatch" }

end

end Llmctl.Reporting
