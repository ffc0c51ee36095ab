import Mathlib.Data.List.Induction
import Mathlib.Data.List.Sort
import Llmctl.Sse
import Llmctl.Store

/-!
# Usage by API key

`joinApiKeyUsage` gives usage rows the key that the audit rows of the same request id
name. The rows of a query stand in the order of their times; rows of one time come in
the order of their random ids, which may be any.
-/

namespace Llmctl

/-! ## Queries -/

def Tables.auditEventsBetween (t : Tables) (from_ to_ : Int) : List AuditEvent :=
  (t.audit.filter fun e => decide (from_ ≤ e.at_ ∧ e.at_ < to_)).insertionSort fun e e' => e.at_ ≤ e'.at_

def Tables.usageEventsBetween (t : Tables) (from_ to_ : Int) : List UsageEvent :=
  (t.usage.filter fun e => decide (from_ ≤ e.at_ ∧ e.at_ < to_)).insertionSort fun e e' => e.at_ ≤ e'.at_

/-! ## `join_api_key_usage` -/

structure ApiKeyAuditMetadata where
  apiKeyId : String
  firstAuditAt : Int
  auditOutcome : String
  deriving DecidableEq, Repr

structure ApiKeyUsageRecord where
  requestId : Nat
  apiKeyId : String
  actor : String
  team : String
  model : String
  inputTokens : Nat
  outputTokens : Nat
  totalTokens : Nat
  latencyMs : Nat
  status : String
  usageAt : Int
  firstAuditAt : Int
  auditOutcome : String
  deriving DecidableEq, Repr

def Json.get (detail : Json) (key : String) : Option String := (detail.find? (·.1 == key)).map (·.2)

def AuditEvent.apiKeyId (event : AuditEvent) : Option String := event.detailJson.get "api_key_id"

/-- The first event of a request id settles the key, each later one the outcome. -/
def auditRequest (audit : Nat → Option ApiKeyAuditMetadata) (event : AuditEvent) : Nat → Option ApiKeyAuditMetadata :=
  match event.requestId, event.apiKeyId with
  | some requestId, some apiKeyId =>
    Function.update audit requestId (some
      (match audit requestId with
      | some metadata => { metadata with auditOutcome := event.outcome }
      | none => ⟨apiKeyId, event.at_, event.outcome⟩))
  | _, _ => audit

def auditByRequest (events : List AuditEvent) : Nat → Option ApiKeyAuditMetadata :=
  events.foldl auditRequest fun _ => none

def apiKeyUsageRecord (metadata : ApiKeyAuditMetadata) (event : UsageEvent) : ApiKeyUsageRecord where
  requestId := event.requestId
  apiKeyId := metadata.apiKeyId
  actor := event.actor
  team := event.team
  model := event.model
  inputTokens := event.inputTokens
  outputTokens := event.outputTokens
  totalTokens := saturatingAdd event.inputTokens event.outputTokens
  latencyMs := event.latencyMs
  status := event.status
  usageAt := event.at_
  firstAuditAt := metadata.firstAuditAt
  auditOutcome := metadata.auditOutcome

def joinApiKeyUsage (auditEvents : List AuditEvent) (usageEvents : List UsageEvent) : List ApiKeyUsageRecord :=
  usageEvents.filterMap fun event =>
    (auditByRequest auditEvents event.requestId).map fun metadata => apiKeyUsageRecord metadata event

def Tables.apiKeyUsageBetween (t : Tables) (from_ to_ : Int) : List ApiKeyUsageRecord :=
  joinApiKeyUsage (t.auditEventsBetween from_ to_) (t.usageEventsBetween from_ to_)

/-! ## What the join takes from the rows -/

/-- `event` puts `requestId` under `apiKeyId`. -/
def AuditEvent.names (event : AuditEvent) (requestId : Nat) (apiKeyId : String) : Prop :=
  event.requestId = some requestId ∧ event.apiKeyId = some apiKeyId

/-- A key that stands for a request id was there before the event, or the event names it. -/
theorem auditRequest_some {audit : Nat → Option ApiKeyAuditMetadata} {event : AuditEvent} {requestId : Nat}
    {metadata : ApiKeyAuditMetadata} (h : auditRequest audit event requestId = some metadata) :
    event.names requestId metadata.apiKeyId ∨
      ∃ metadata', audit requestId = some metadata' ∧ metadata'.apiKeyId = metadata.apiKeyId := by
  unfold auditRequest at h
  cases hid : event.requestId with
  | none => exact .inr ⟨metadata, by simpa only [hid] using h, rfl⟩
  | some id =>
    cases hkey : event.apiKeyId with
    | none => exact .inr ⟨metadata, by simpa only [hid, hkey] using h, rfl⟩
    | some apiKeyId =>
      simp only [hid, hkey] at h
      by_cases hr : requestId = id
      · subst hr
        rw [Function.update_self] at h
        cases hold : audit requestId with
        | none =>
          rw [hold] at h
          cases h
          exact .inl ⟨hid, hkey⟩
        | some metadata' =>
          rw [hold] at h
          cases h
          exact .inr ⟨metadata', rfl, rfl⟩
      · rw [Function.update_of_ne hr] at h
        exact .inr ⟨metadata, h, rfl⟩

theorem auditByRequest_names {events : List AuditEvent} {requestId : Nat} {metadata : ApiKeyAuditMetadata}
    (h : auditByRequest events requestId = some metadata) : ∃ event ∈ events, event.names requestId metadata.apiKeyId := by
  induction events using List.reverseRecOn generalizing metadata with
  | nil => cases h
  | append_singleton events event ih =>
    unfold auditByRequest at h ih
    rw [List.foldl_append, List.foldl_cons, List.foldl_nil] at h
    obtain hnames | ⟨metadata', hold, hkey⟩ := auditRequest_some h
    · exact ⟨event, List.mem_append_right _ (List.mem_singleton_self event), hnames⟩
    · obtain ⟨e, he, hnames⟩ := ih hold
      exact ⟨e, List.mem_append_left _ he, hkey ▸ hnames⟩

/-- A record is a usage row under a key that an audit row of its request id names. -/
theorem mem_apiKeyUsageBetween {t : Tables} {from_ to_ : Int} {record : ApiKeyUsageRecord}
    (h : record ∈ t.apiKeyUsageBetween from_ to_) :
    ∃ event ∈ t.usage, ∃ metadata, record = apiKeyUsageRecord metadata event ∧
      ∃ audit ∈ t.audit, audit.names event.requestId metadata.apiKeyId := by
  obtain ⟨event, hevent, h⟩ := List.mem_filterMap.mp h
  obtain ⟨metadata, hmetadata, he⟩ := Option.map_eq_some_iff.mp h
  obtain ⟨audit, haudit, hnames⟩ := auditByRequest_names hmetadata
  refine ⟨event, ?_, metadata, he.symm, audit, ?_, hnames⟩
  · exact List.mem_of_mem_filter ((List.mem_insertionSort _).mp hevent)
  · exact List.mem_of_mem_filter ((List.mem_insertionSort _).mp haudit)

end Llmctl
