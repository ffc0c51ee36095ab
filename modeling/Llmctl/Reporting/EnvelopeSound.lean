import Llmctl.Reporting.Envelope

/-!
# What an envelope vouches for

An envelope is accepted where its payload is the one that it was made of, in any order of the
fields, unless another payload has the same hash.
-/

namespace Llmctl.Reporting

open Text Value

/-! ## Hashes -/

theorem eqIgnoreAsciiCase_hexEncode (bytes bytes' : List UInt8) :
    eqIgnoreAsciiCase (hexEncode bytes) (hexEncode bytes') = true ↔ bytes = bytes' := by
  rw [eqIgnoreAsciiCase, map_toLower_hexEncode, map_toLower_hexEncode, beq_iff_eq, String.toList_inj]
  exact hexEncode_injective.eq_iff

/-- No other canonical text has the hash of this one. -/
def NoCollision (sha256 : ByteArray → List UInt8) (payload other : Value) : Prop :=
  sha256 payload.canonicalJson.toUTF8 = sha256 other.canonicalJson.toUTF8 → payload.canonicalJson = other.canonicalJson

section
variable {sha256 : ByteArray → List UInt8} {payload other : Value}

theorem canonicalSha256_of_same (hdoc : payload.Document) (hdoc' : other.Document) (h : same payload other = true) :
    canonicalSha256 sha256 payload = canonicalSha256 sha256 other := by
  rw [canonicalSha256, canonicalSha256, (canonicalJson_eq_iff hdoc hdoc').mpr h]

/-- The hashes match where the payloads do. -/
theorem hash_matches_iff (hdoc : payload.Document) (hdoc' : other.Document) (hcollision : NoCollision sha256 payload other) :
    eqIgnoreAsciiCase (canonicalSha256 sha256 payload) (canonicalSha256 sha256 other) = true ↔ same payload other = true := by
  rw [canonicalSha256, canonicalSha256, eqIgnoreAsciiCase_hexEncode, ← canonicalJson_eq_iff hdoc hdoc']
  exact ⟨hcollision, fun h => by rw [h]⟩

end

/-! ## Metadata -/

/-- The metadata of an envelope, as they are read from it: the hash, the version and a kind. -/
structure Vouches (hash : String) (metadata : List (String × Value)) : Prop where
  expected : expectedSha256 metadata = some hash
  version : schemaVersion metadata = some reportSchemaVersion
  kind : (reportKind metadata).isSome = true

section
variable {sha256 : ByteArray → List UInt8} {envelope : Value} {metadata : List (String × Value)} {hash : String}

theorem verify_payload {payload : Value} (hmetadata : envelope.get "metadata" = some (.object metadata)) (hvouches : Vouches hash metadata)
    (hpayload : envelope.get "payload" = some payload) :
    (verifyEnvelopeValue sha256 envelope).valid = eqIgnoreAsciiCase hash (canonicalSha256 sha256 payload) := by
  obtain ⟨kind, hkind⟩ := Option.isSome_iff_exists.mp hvouches.kind
  unfold verifyEnvelopeValue
  simp only [hmetadata, Option.bind_some, asObject, hpayload, hvouches.expected, hvouches.version, hkind, ne_eq, not_true, if_false,
    Option.isNone_some, Bool.false_eq_true]

theorem verify_without_payload (hmetadata : envelope.get "metadata" = some (.object metadata)) (hpayload : envelope.get "payload" = none) :
    (verifyEnvelopeValue sha256 envelope).valid = false := by
  unfold verifyEnvelopeValue
  simp only [hmetadata, Option.bind_some, asObject, hpayload]
  rfl

end

theorem same_string {s : String} {v : Value} (h : same (.string s) v = true) : v = .string s := by
  cases v <;> simp [same] at h
  rw [h]

theorem same_number {text : String} {v : Value} (h : same (.number text) v = true) : v = .number text := by
  cases v <;> simp [same] at h
  rw [h]

section
variable (sha256 : ByteArray → List UInt8) (contracts : List (String × Value)) (order : FieldOrder) (kind : ReportKind) (payload : Value)
  (generatedAt : String)

theorem fields_nodup (metadata : ReportMetadata) : ((metadata.fields order).map (·.1)).Nodup := by
  show ["report_kind", "generated_at", "schema_version", "producer", "contract_schema_version", "contract_hashes", "sha256"].Nodup
  decide

omit sha256 contracts order in
theorem vouches_of_lookup {hash : String} {fields : List (String × Value)} (hsha : lookup "sha256" fields = some (.string hash))
    (hversion : lookup "schema_version" fields = some (.number reportSchemaVersion.repr))
    (hkind : lookup "report_kind" fields = some (.string kind.name)) : Vouches hash fields where
  expected := by rw [expectedSha256, hsha]; rfl
  version := by
    rw [schemaVersion, hversion, Option.bind_some]
    exact asU64_repr (show reportSchemaVersion < 2 ^ 64 by decide)
  kind := by rw [reportKind, hkind]; rfl

theorem mem_fields :
    let fields := (reportEnvelopeAt sha256 contracts kind payload generatedAt).metadata.fields order
    ("sha256", .string (canonicalSha256 sha256 payload)) ∈ fields ∧ ("schema_version", .number reportSchemaVersion.repr) ∈ fields ∧
      ("report_kind", .string kind.name) ∈ fields := by
  simp [ReportMetadata.fields, reportEnvelopeAt]

/-- What equals the metadata of an envelope says the same. -/
theorem vouches_of_same {metadata : Value}
    (h : same (.json order ((reportEnvelopeAt sha256 contracts kind payload generatedAt).metadata.fields order)) metadata = true) :
    ∃ fields, metadata = .object fields ∧ Vouches (canonicalSha256 sha256 payload) fields := by
  cases metadata with
  | object fields =>
    have hfield {key : String} {v : Value}
        (hmem : (key, v) ∈ (reportEnvelopeAt sha256 contracts kind payload generatedAt).metadata.fields order) :
        ∃ w, lookup key fields = some w ∧ same v w = true := get_of_same h (get_json (fields_nodup order _) hmem)
    obtain ⟨hsha, hversion, hkind⟩ := mem_fields sha256 contracts order kind payload generatedAt
    obtain ⟨sha, hsha, hsameSha⟩ := hfield hsha
    obtain ⟨version, hversion, hsameVersion⟩ := hfield hversion
    obtain ⟨name, hkind, hsameKind⟩ := hfield hkind
    rw [same_string hsameSha] at hsha
    rw [same_number hsameVersion] at hversion
    rw [same_string hsameKind] at hkind
    exact ⟨fields, rfl, vouches_of_lookup kind hsha hversion hkind⟩
  | _ => cases h

theorem toValue_get (envelope : ReportEnvelope) :
    (envelope.toValue order).get "metadata" = some (.json order (envelope.metadata.fields order)) ∧
      (envelope.toValue order).get "payload" = some envelope.payload := by
  have hnodup : ([("metadata", Value.json order (envelope.metadata.fields order)), ("payload", envelope.payload)].map (·.1)).Nodup := by
    show ["metadata", "payload"].Nodup
    decide
  exact ⟨get_json hnodup List.mem_cons_self, get_json hnodup (List.mem_cons_of_mem _ List.mem_cons_self)⟩

end

/-! ## Envelopes -/

section
variable (sha256 : ByteArray → List UInt8) (contracts : List (String × Value)) (order : FieldOrder)

/-- The envelope of a payload is accepted, and so is what equals it but for the order of fields.
With its metadata, no other payload is, unless there is a collision. -/
structure VouchesFor (kind : ReportKind) (payload : Value) (generatedAt : String) : Prop where
  accepted : (verifyEnvelopeValue sha256 ((reportEnvelopeAt sha256 contracts kind payload generatedAt).toValue order)).valid = true
  reordered : ∀ envelope : Value, envelope.Document →
    same ((reportEnvelopeAt sha256 contracts kind payload generatedAt).toValue order) envelope = true →
    (verifyEnvelopeValue sha256 envelope).valid = true
  rejected : ∀ envelope metadata : Value, envelope.Document → envelope.get "metadata" = some metadata →
    same (.json order ((reportEnvelopeAt sha256 contracts kind payload generatedAt).metadata.fields order)) metadata = true →
    (∀ other, envelope.get "payload" = some other → same payload other = false ∧ NoCollision sha256 payload other) →
    (verifyEnvelopeValue sha256 envelope).valid = false

theorem document_of_get {v w : Value} {key : String} (hv : v.Document) (h : v.get key = some w) : w.Document := by
  cases v with
  | object fields => exact documentFields_iff.mp hv.2 _ (mem_of_get h)
  | _ => cases h

theorem vouchesFor (kind : ReportKind) {payload : Value} (hdoc : payload.Document) (generatedAt : String) :
    VouchesFor sha256 contracts order kind payload generatedAt where
  accepted := by
    obtain ⟨hmetadata, hpayload⟩ := toValue_get order (reportEnvelopeAt sha256 contracts kind payload generatedAt)
    obtain ⟨hsha, hversion, hkind⟩ := mem_fields sha256 contracts order kind payload generatedAt
    have hnodup := fields_nodup order (reportEnvelopeAt sha256 contracts kind payload generatedAt).metadata
    have hvouches : Vouches (canonicalSha256 sha256 payload)
        (collectFields order ((reportEnvelopeAt sha256 contracts kind payload generatedAt).metadata.fields order)) :=
      vouches_of_lookup kind (get_json hnodup hsha) (get_json hnodup hversion) (get_json hnodup hkind)
    rw [verify_payload hmetadata hvouches hpayload]
    exact beq_self_eq_true _
  reordered envelope henvelope hsame := by
    obtain ⟨hmetadata, hpayload⟩ := toValue_get order (reportEnvelopeAt sha256 contracts kind payload generatedAt)
    obtain ⟨metadata, hget, hsameMetadata⟩ := get_of_same hsame hmetadata
    obtain ⟨fields, rfl, hvouches⟩ := vouches_of_same sha256 contracts order kind payload generatedAt hsameMetadata
    obtain ⟨other, hgetPayload, hsamePayload⟩ := get_of_same hsame hpayload
    rw [verify_payload hget hvouches hgetPayload, canonicalSha256_of_same hdoc (document_of_get henvelope hgetPayload) hsamePayload]
    exact beq_self_eq_true _
  rejected envelope metadata henvelope hget hsameMetadata hother := by
    obtain ⟨fields, rfl, hvouches⟩ := vouches_of_same sha256 contracts order kind payload generatedAt hsameMetadata
    cases hpayload : envelope.get "payload" with
    | none => exact verify_without_payload hget hpayload
    | some other =>
      obtain ⟨hchanged, hcollision⟩ := hother other hpayload
      rw [verify_payload hget hvouches hpayload]
      refine Bool.eq_false_of_not_eq_true fun hmatches => ?_
      rw [(hash_matches_iff hdoc (document_of_get henvelope hpayload) hcollision).mp hmatches] at hchanged
      cases hchanged

/-- Canonical texts tell values apart but for the order of fields, and with them the envelopes. -/
theorem canonical_and_vouched :
    (∀ v w : Value, v.Document → w.Document → (v.canonicalJson = w.canonicalJson ↔ same v w = true)) ∧
      ∀ kind (payload : Value) generatedAt, payload.Document → VouchesFor sha256 contracts order kind payload generatedAt :=
  ⟨fun _ _ hv hw => canonicalJson_eq_iff hv hw, fun kind _ generatedAt hdoc => vouchesFor sha256 contracts order kind hdoc generatedAt⟩

end

def month (n : Nat) : Value := .object [("year", .number (Nat.repr 2026)), ("month", .number n.repr)]

theorem month_document (n : Nat) : (month n).Document :=
  ⟨by show ["year", "month"].Nodup; decide, isNumber_repr 2026, isNumber_repr n, trivial⟩

/-- In place of a hash, the bytes themselves. -/
def rawHash (bytes : ByteArray) : List UInt8 := bytes.toList

theorem canonical_and_vouched_month :
    ((month 5).canonicalJson = (month 6).canonicalJson ↔ same (month 5) (month 6) = true) ∧
      VouchesFor rawHash [] .inserted .monthlyAudit (month 5) "2026-05-16T12:00:00Z" :=
  ⟨(canonical_and_vouched rawHash [] .inserted).1 _ _ (month_document 5) (month_document 6),
    (canonical_and_vouched rawHash [] .inserted).2 .monthlyAudit _ _ (month_document 5)⟩

end Llmctl.Reporting
