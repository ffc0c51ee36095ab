import Llmctl.Observability.Events

/-!
# What a span tells

No exported text has the mark of a secret. The token counts of a request are not exported
either: the names of their attributes say `token`.
-/

namespace Llmctl.Observability

variable {key s : String} {value : Value} {attributes : List (String × Value)}

theorem redacted_harmless : textContainsSecret redactedAttributeValue = false := by decide +kernel

/-! ## Sanitized attributes -/

/-- What is left of an attribute: nothing, or a value that needs no redaction. -/
theorem mem_sanitize (h : (key, value) ∈ sanitizeOtelAttributes attributes) :
    value = .string redactedAttributeValue ∨ shouldRedactAttribute key value = false := by
  obtain ⟨⟨key', value'⟩, -, hattribute⟩ := List.mem_map.mp h
  dsimp only at hattribute
  split at hattribute
  · obtain ⟨-, rfl⟩ := Prod.mk.inj hattribute
    exact .inl rfl
  · rename_i hkept
    obtain ⟨rfl, rfl⟩ := Prod.mk.inj hattribute
    exact .inr (Bool.eq_false_of_not_eq_true hkept)

theorem no_secret_of_kept (h : shouldRedactAttribute key (.string s) = false) : textContainsSecret s = false := by
  unfold shouldRedactAttribute at h
  dsimp only at h
  split at h
  · cases h
  · exact h

theorem sanitized_no_secret (h : (key, .string s) ∈ sanitizeOtelAttributes attributes) : textContainsSecret s = false := by
  rcases mem_sanitize h with hredacted | hkept
  · obtain rfl := Value.string.inj hredacted
    exact redacted_harmless
  · exact no_secret_of_kept hkept

/-- Redaction leaves nothing to redact. -/
theorem sanitize_sanitize (attributes : List (String × Value)) :
    sanitizeOtelAttributes (sanitizeOtelAttributes attributes) = sanitizeOtelAttributes attributes := by
  conv_lhs => rw [sanitizeOtelAttributes]
  refine (List.map_congr_left fun field hmem => ?_).trans (List.map_id _)
  obtain ⟨key, value⟩ := field
  dsimp only [id]
  rcases mem_sanitize hmem with rfl | hkept
  · exact ite_self _
  · rw [hkept]
    rfl

/-! ## Exported attributes -/

theorem jsonToKeyValue_key {exported : KeyValue} (h : jsonToKeyValue key value = some exported) : exported.1 = key := by
  cases value with
  | bool b =>
    cases h
    rfl
  | string s =>
    cases h
    rfl
  | number text =>
    unfold jsonToKeyValue at h
    cases hi : asI64 (.number text) <;> cases hu : (Value.number text).asU64.bind i64TryFrom <;>
      simp only [hi, hu, Option.map_some, Option.map_none, Option.orElse_some, Option.orElse_none, Option.some.injEq] at h <;>
      rw [← h]
  | null => cases h
  | array items => cases h
  | object fields => cases h

theorem jsonToKeyValue_string (h : jsonToKeyValue key value = some (key, .string s)) : value = .string s := by
  cases value with
  | bool b => cases h
  | string s' =>
    cases h
    rfl
  | number text =>
    unfold jsonToKeyValue at h
    cases hi : asI64 (.number text) <;> cases hu : (Value.number text).asU64.bind i64TryFrom <;> simp [hi, hu] at h
  | null => cases h
  | array items => cases h
  | object fields => cases h

theorem exported_no_secret (signal : TelemetrySignal) (name : TelemetryEventName) (now : Int)
    (h : (key, .string s) ∈ telemetryKeyValues (.new signal name now attributes)) : textContainsSecret s = false := by
  rcases List.mem_append.mp h with hfixed | hattribute
  · have hnames : ∀ name : TelemetryEventName, textContainsSecret name.asStr = false := by
      intro name
      cases name <;> decide +kernel
    have hsignals : ∀ signal : TelemetrySignal, textContainsSecret signal.name = false := by
      intro signal
      cases signal <;> decide +kernel
    simp only [List.mem_cons, Prod.mk.injEq, AttributeValue.string.injEq, List.not_mem_nil, or_false] at hfixed
    rcases hfixed with ⟨-, rfl⟩ | ⟨-, rfl⟩
    · exact hnames _
    · exact hsignals _
  · obtain ⟨⟨key', value⟩, hmem, hexported⟩ := List.mem_filterMap.mp hattribute
    obtain rfl : key = key' := jsonToKeyValue_key hexported
    rw [jsonToKeyValue_string hexported] at hmem
    exact sanitized_no_secret hmem

/-- An attribute whose name is redacted is exported as redacted. -/
theorem exported_redacted {signal : TelemetrySignal} {name : TelemetryEventName} {now : Int} {exported : AttributeValue}
    (hkey : ∀ value, shouldRedactAttribute key value = true) (hname : key ≠ "llmctl.telemetry.name")
    (hsignal : key ≠ "llmctl.telemetry.signal") (h : (key, exported) ∈ telemetryKeyValues (.new signal name now attributes)) :
    exported = .string redactedAttributeValue := by
  rcases List.mem_append.mp h with hfixed | hattribute
  · simp [hname, hsignal] at hfixed
  · obtain ⟨⟨key', value⟩, hmem, hexported⟩ := List.mem_filterMap.mp hattribute
    obtain rfl : key = key' := jsonToKeyValue_key hexported
    rcases mem_sanitize hmem with rfl | hkept
    · cases hexported
      rfl
    · rw [hkey value] at hkept
      cases hkept

/-! ## Usage -/

/-- The span has the token counts of the event. -/
def CarriesUsage (event : UsageEvent) (span : List KeyValue) : Prop :=
  ("gen_ai.usage.input_tokens", .i64 event.inputTokens) ∈ span ∧ ("gen_ai.usage.output_tokens", .i64 event.outputTokens) ∈ span

theorem tokens_redacted (value : Value) : shouldRedactAttribute "gen_ai.usage.input_tokens" value = true := by
  unfold shouldRedactAttribute
  dsimp only
  exact if_pos (by decide +kernel)

/-- No usage span carries the token counts; what any event exports is clean, and sanitizing again
changes nothing. -/
theorem usage_dropped_with_secrets (uuid : Nat → String) :
    (∀ event accountingMode genAiSystem now, ¬ CarriesUsage event (usageSpan uuid event accountingMode genAiSystem now)) ∧
    (∀ signal name now attributes key s, (key, .string s) ∈ telemetryKeyValues (.new signal name now attributes) →
      textContainsSecret s = false) ∧
    ∀ attributes, sanitizeOtelAttributes (sanitizeOtelAttributes attributes) = sanitizeOtelAttributes attributes := by
  refine ⟨fun event accountingMode genAiSystem now hcarries => ?_, fun signal name now attributes key s h => ?_, sanitize_sanitize⟩
  · have hredacted := exported_redacted tokens_redacted (by decide) (by decide) hcarries.1
    cases hredacted
  · exact exported_no_secret signal name now h

def chat : UsageEvent := ⟨7, 1778932800000, "qwen", "alice", "platform", 11, 13, 42, "ok"⟩

/-- The counts of a chat are redacted. -/
theorem chat_usage_redacted :
    ("gen_ai.usage.input_tokens", .string "[REDACTED]") ∈ usageSpan Nat.repr chat "exact" "llmctl.native" 0 ∧
      ("gen_ai.usage.output_tokens", .string "[REDACTED]") ∈ usageSpan Nat.repr chat "exact" "llmctl.native" 0 ∧
      ¬ CarriesUsage chat (usageSpan Nat.repr chat "exact" "llmctl.native" 0) := by
  refine ⟨by decide +kernel, by decide +kernel, fun hcarries => ?_⟩
  have hredacted := exported_redacted tokens_redacted (by decide) (by decide) hcarries.1
  cases hredacted

end Llmctl.Observability
