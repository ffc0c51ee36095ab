import Mathlib.Algebra.BigOperators.Ring.Finset
import Llmctl.Related
import Llmctl.Store.EventLog
import Llmctl.Store.TimesSound
import Llmctl.Text.Document

/-!
# The database answers as the log

Every table holds the rows of the records that its list of the log holds, in the same
order, and every call answers the same and keeps that. Only documents have to be such
that they read back.
-/

namespace Llmctl.Tables

open Calendar List

section
variable {U J F : Type} [LinearOrder U]

/-- What is documented of the crates for UUIDs and times. -/
structure Encoding.Documented (enc : Encoding U J F) : Prop where
  times : Rfc3339 enc.toRfc3339 enc.parseFromRfc3339
  parsed : ∀ id, enc.parseStr (enc.uuidText id) = some id
  sorted : ∀ a b, enc.uuidText a ≤ enc.uuidText b ↔ a ≤ b

def Encoding.ReadsBack (enc : Encoding U J F) (document : J) : Prop := enc.fromStr (enc.jsonText document) = some document

variable {enc : Encoding U J F} (h : enc.Documented) (dialect : SqlDialect)

include h

theorem Encoding.Documented.uuidText_inj {a b : U} : enc.uuidText a = enc.uuidText b ↔ a = b := by
  constructor
  · intro heq
    have hparsed := h.parsed a
    rw [heq, h.parsed b] at hparsed
    exact (Option.some.inj hparsed).symm
  · intro heq
    rw [heq]

theorem parseUuid_uuidText (id : U) : parseUuid enc (enc.uuidText id) = .ok id := by
  simp [parseUuid, h.parsed]

theorem parseOptionalUuid_uuidText (id : Option U) : parseOptionalUuid enc (id.map enc.uuidText) = .ok id := by
  cases id with
  | none => rfl
  | some id =>
    simp only [Option.map_some, parseOptionalUuid, parseUuid_uuidText h]
    rfl

theorem readTime_toRfc3339 (t : Instant) : readTime enc (enc.toRfc3339 t) = .ok t := by
  simp [readTime, parseTime, h.times.parse]

omit h [LinearOrder U] in
theorem parseJson_jsonText {document : J} (hdoc : enc.ReadsBack document) :
    parseJson enc (enc.jsonText document) = .ok document := by
  have hread : enc.fromStr (enc.jsonText document) = some document := hdoc
  simp [parseJson, hread]

/-! ## Codecs -/

/-- What a table keeps of what is written into it. -/
structure Codec.Keeps {C K : Type} (enc : Encoding U J F) (codec : Codec U C K) (refusal : C → Option StorageError)
    (readable : C → Prop) : Prop where
  unbound : ∀ c err, codec.bind c = .error err → refusal c = some err
  bound : ∀ c k, codec.bind c = .ok k → refusal c = refuseUnless (codec.fits k)
  request : ∀ c k, codec.bind c = .ok k → codec.requestCell k = (codec.request c).map enc.uuidText
  read : ∀ c k, codec.bind c = .ok k → readable c → codec.read k = .ok c

theorem auditCodec_keeps :
    Codec.Keeps enc (auditCodec enc dialect) (auditRefusal dialect) fun c => enc.ReadsBack c.detailJson where
  unbound c err herr := by cases herr
  bound c k hk := by
    cases hk
    rfl
  request c k hk := by
    cases hk
    rfl
  read c k hk hdoc := by
    cases hk
    simp only [auditCodec, parseOptionalUuid_uuidText h, parseJson_jsonText hdoc]
    rfl

theorem observationCodec_keeps :
    Codec.Keeps enc (observationCodec enc dialect) (observationRefusal enc.isNan dialect)
      fun c => enc.ReadsBack c.attributesJson where
  unbound c err herr := by cases herr
  bound c k hk := by
    cases hk
    rfl
  request c k hk := by
    cases hk
    rfl
  read c k hk hdoc := by
    cases hk
    simp only [observationCodec, parseOptionalUuid_uuidText h, parseJson_jsonText hdoc]
    rfl

theorem lineageCodec_keeps : Codec.Keeps enc (lineageCodec enc dialect) (lineageRefusal dialect) fun _ => True where
  unbound c err herr := by cases herr
  bound c k hk := by
    cases hk
    rfl
  request c k hk := by
    cases hk
    rfl
  read c k hk _ := by
    cases hk
    simp only [lineageCodec, parseUuid_uuidText h]
    rfl

omit h in
theorem boolCell_fits (value : Bool) :
    (dialect == .postgres || dialect.boolCell value == .integer 0 || dialect.boolCell value == .integer 1) = true := by
  cases dialect <;> cases value <;> rfl

omit h in
@[simp] theorem boolCell_get (value : Bool) : (dialect.boolCell value).get = value := by
  cases dialect <;> cases value <;> rfl

omit h in
@[simp] theorem isTrue_boolCell (value : Bool) : dialect.isTrue (dialect.boolCell value) = value := by
  cases dialect <;> cases value <;> rfl

theorem quotaCodec_keeps :
    Codec.Keeps enc (quotaCodec enc dialect) (quotaRefusal dialect) fun c => enc.ReadsBack c.policyJson where
  unbound c err herr := by cases herr
  bound c k hk := by
    cases hk
    simp only [quotaCodec, boolCell_fits, Bool.and_true]
    rfl
  request c k hk := by
    cases hk
    rfl
  read c k hk hdoc := by
    cases hk
    simp only [quotaCodec, parseOptionalUuid_uuidText h, parseJson_jsonText hdoc, boolCell_get]
    rfl

omit h in
theorem i64ToU64_toNat (value : UInt64) (field : String) : i64ToU64 value.toNat field = .ok value := by
  simp [i64ToU64]

/-- What a usage event is stored as, if its counts are not too large. -/
def usageCells (enc : Encoding U J F) (c : UsageColumns U) : UsageCells :=
  ⟨enc.uuidText c.requestId, c.model, c.actor, c.team, c.inputTokens.toNat, c.outputTokens.toNat, c.latencyMs.toNat, c.status⟩

omit h [LinearOrder U] in
theorem usageCodec_bind (c : UsageColumns U) : (usageCodec enc dialect).bind c =
    if c.counts.all fun count => decide (count < 2 ^ 63) then .ok (usageCells enc c) else .error .outOfRange := by
  simp only [usageCodec, UsageColumns.counts, i64TryFrom, List.all_cons, List.all_nil, Bool.and_true, Bool.and_eq_true,
    decide_eq_true_eq]
  by_cases hinput : c.inputTokens.toNat < 2 ^ 63
  · by_cases houtput : c.outputTokens.toNat < 2 ^ 63
    · by_cases hlatency : c.latencyMs.toNat < 2 ^ 63
      · simp only [hinput, houtput, hlatency, and_self, if_true]
        rfl
      · simp only [hinput, houtput, hlatency, and_false, if_true, if_false]
        rfl
    · simp only [hinput, houtput, false_and, and_false, if_true, if_false]
      rfl
  · simp only [hinput, false_and, if_false]
    rfl

omit h [LinearOrder U] in
theorem usageCells_of_bind {c : UsageColumns U} {k : UsageCells} (hk : (usageCodec enc dialect).bind c = .ok k) :
    k = usageCells enc c ∧ (c.counts.all fun count => decide (count < 2 ^ 63)) = true := by
  rw [usageCodec_bind] at hk
  split at hk
  · rename_i hall
    cases hk
    exact ⟨rfl, hall⟩
  · cases hk

theorem usageCodec_keeps : Codec.Keeps enc (usageCodec enc dialect) (usageRefusal dialect) fun _ => True where
  unbound c err herr := by
    rw [usageCodec_bind] at herr
    split at herr
    · cases herr
    · rename_i hall
      cases herr
      exact if_neg hall
  bound c k hk := by
    obtain ⟨rfl, hall⟩ := usageCells_of_bind dialect hk
    rw [usageRefusal, if_pos hall]
    simp [usageCodec, usageCells, UsageCells.texts, UsageColumns.texts, UsageColumns.counts]
  request c k hk := by
    obtain ⟨rfl, -⟩ := usageCells_of_bind dialect hk
    rfl
  read c k hk _ := by
    obtain ⟨rfl, -⟩ := usageCells_of_bind dialect hk
    simp only [usageCodec, usageCells, parseUuid_uuidText h, i64ToU64_toNat]
    rfl

end

/-! ## Tables -/

section
variable {U J F : Type} [LinearOrder U] {enc : Encoding U J F} (h : enc.Documented) {dialect : SqlDialect}
variable {C K : Type} {codec : Codec U C K} {refusal : C → Option StorageError} {readable : C → Prop}

structure RowOf (enc : Encoding U J F) (codec : Codec U C K) (event : Record U C) (row : Row K) : Prop where
  id : row.id = enc.uuidText event.id
  at_ : row.at_ = enc.toRfc3339 event.at_
  bound : codec.bind event.columns = .ok row.columns
  read : codec.read row.columns = .ok event.columns

variable {events : List (Record U C)} {rows : List (Row K)} (hrows : Forall₂ (RowOf enc codec) events rows)

include h

theorem RowOf.id_beq {event : Record U C} {row : Row K} (hrow : RowOf enc codec event row) (id : U) :
    (event.id == id) = (row.id == enc.uuidText id) := by
  rw [hrow.id, Bool.eq_iff_iff, beq_iff_eq, beq_iff_eq, h.uuidText_inj]

theorem RowOf.within {event : Record U C} {row : Row K} (hrow : RowOf enc codec event row) (from_ to_ : Instant) :
    event.within from_ to_ = inWindow enc.toRfc3339 from_ to_ row := by
  simp [Record.within, inWindow, encodeTime, hrow.at_, h.times.le_iff, h.times.lt_iff]

theorem RowOf.before {event event' : Record U C} {row row' : Row K} (hrow : RowOf enc codec event row)
    (hrow' : RowOf enc codec event' row') : event.Before event' ↔ row.Before row' := by
  simp [Record.Before, Row.Before, hrow.at_, hrow'.at_, hrow.id, hrow'.id, h.times.lt_iff, h.times.eq_iff, h.sorted]

theorem readRow_of {event : Record U C} {row : Row K} (hrow : RowOf enc codec event row) :
    readRow enc codec row = .ok event := by
  simp only [readRow, hrow.id, hrow.at_, hrow.read, parseUuid_uuidText h, readTime_toRfc3339 h]
  rfl

include hrows

theorem sorted_rows : Forall₂ (RowOf enc codec) (events.insertionSort Record.Before) (rows.insertionSort Row.Before) :=
  Related.insertionSort (fun _ _ _ _ hrow hrow' => hrow.before h hrow') hrows

theorem read_rows : rows.mapM (readRow enc codec) = .ok events :=
  Related.mapM hrows.flip fun _ _ hrow => readRow_of h hrow

theorem insertEvent_eq (hkeeps : codec.Keeps enc refusal readable) {event : Record U C} (hread : readable event.columns) :
    (insertEvent enc codec event rows).1 = (logEvent refusal event events).1 ∧
      Forall₂ (RowOf enc codec) (logEvent refusal event events).2 (insertEvent enc codec event rows).2 := by
  unfold insertEvent logEvent
  cases hbind : codec.bind event.columns with
  | error err =>
    simp only [hkeeps.unbound _ _ hbind]
    exact ⟨trivial, hrows⟩
  | ok cells =>
    have hany : (rows.any fun row => row.id == enc.uuidText event.id) = events.any fun old => old.id == event.id :=
      (Related.any hrows fun _ _ hrow => hrow.id_beq h event.id).symm
    simp only [hkeeps.bound _ _ hbind, hany]
    by_cases hfits : codec.fits cells = true
    · simp only [hfits, refuseUnless, Bool.true_and]
      by_cases hdup : (events.any fun old => old.id == event.id) = true
      · simp only [hdup]
        exact ⟨rfl, hrows⟩
      · simp only [Bool.eq_false_iff.mpr hdup]
        exact ⟨rfl, rel_append hrows (.cons ⟨rfl, rfl, hbind, hkeeps.read _ _ hbind hread⟩ .nil)⟩
    · simp only [Bool.eq_false_iff.mpr hfits, refuseUnless, Bool.false_and]
      exact ⟨rfl, hrows⟩

theorem eventsBetweenLimited_eq (from_ to_ : Instant) (limit : Option Nat) :
    eventsBetweenLimited enc codec rows from_ to_ limit = logBetween events from_ to_ limit := by
  have hselected := sorted_rows h (Related.filter hrows fun _ _ hrow => hrow.within h from_ to_)
  unfold eventsBetweenLimited logBetween limited rowsBetween
  cases limitClause limit with
  | none => exact read_rows h hselected
  | some limit =>
    by_cases hlimit : limit < 2 ^ 63
    · simp only [if_pos hlimit]
      exact read_rows h (forall₂_take limit hselected)
    · simp only [if_neg hlimit]
      rfl

theorem eventsForRequest_eq (hkeeps : codec.Keeps enc refusal readable) (requestId : U) :
    eventsForRequest enc codec rows requestId = .ok (logForRequest codec.request events requestId) := by
  apply read_rows h
  apply sorted_rows h
  apply Related.filter hrows
  intro event row hrow
  rw [hkeeps.request _ _ hrow.bound, Bool.eq_iff_iff, beq_iff_eq, beq_iff_eq]
  cases codec.request event.columns with
  | none => simp
  | some id => simp [h.uuidText_inj]

theorem allEvents_eq : allEvents enc codec rows = .ok (events.insertionSort Record.Before) :=
  read_rows h (sorted_rows h hrows)

end

section
variable {U J F : Type} [LinearOrder U] {enc : Encoding U J F} (h : enc.Documented) {dialect : SqlDialect}

/-! ### Audit events -/

section
variable {events : List (Record U (AuditColumns U J))} {rows : List (Row AuditCells)}
  (hrows : Forall₂ (RowOf enc (auditCodec enc dialect)) events rows)

include h

theorem before_cutoff {event : Record U (AuditColumns U J)} {row : Row AuditCells}
    (hrow : RowOf enc (auditCodec enc dialect) event row) (cutoff : Instant) :
    decide (event.at_ < cutoff) = decide (row.at_ < encodeTime enc.toRfc3339 cutoff) := by
  simp [encodeTime, hrow.at_, h.times.lt_iff]

include hrows

theorem auditRetentionCounts_eq (cutoff : Instant) : auditRetentionCounts enc rows cutoff = logRetention events cutoff := by
  unfold auditRetentionCounts logRetention
  congr 1
  · exact hrows.length_eq.symm
  · refine (Related.countP hrows ?_).symm
    intro event row hrow
    simp [encodeTime, hrow.at_, h.times.le_iff]
  · exact (Related.countP hrows fun _ _ hrow => before_cutoff h hrow cutoff).symm

theorem deleteAuditEventsBefore_eq (cutoff : Instant) :
    (deleteAuditEventsBefore enc rows cutoff).1 = events.countP (fun event => decide (event.at_ < cutoff)) ∧
      Forall₂ (RowOf enc (auditCodec enc dialect)) (events.filter fun event => !decide (event.at_ < cutoff))
        (deleteAuditEventsBefore enc rows cutoff).2 := by
  constructor
  · exact (Related.countP hrows fun _ _ hrow => before_cutoff h hrow cutoff).symm
  · apply Related.filter hrows
    intro event row hrow
    rw [before_cutoff h hrow cutoff]

end

/-! ### Totals -/

section

include h

theorem allowedQuotaDecisions_eq {decisions : List (Record U (QuotaColumns U J))} {rows : List (Row QuotaCells)}
    (hrows : Forall₂ (RowOf enc (quotaCodec enc dialect)) decisions rows) (principal : Principal) (subjectScoped : Bool)
    (from_ to_ : Instant) : allowedQuotaDecisions enc dialect rows principal subjectScoped from_ to_ =
      logAllowed dialect decisions principal subjectScoped from_ to_ := by
  have hcount : (rows.countP fun row => dialect.isTrue row.columns.allowed && inWindow enc.toRfc3339 from_ to_ row &&
        inScope principal subjectScoped row.columns.actor row.columns.team) =
      decisions.countP fun decision => decision.columns.allowed && decision.within from_ to_ &&
        inScope principal subjectScoped decision.columns.actor decision.columns.team := by
    refine (Related.countP hrows ?_).symm
    intro decision row hrow
    have hcells : row.columns = _ := (Except.ok.inj hrow.bound).symm
    simp [hcells, hrow.within h]
  rw [allowedQuotaDecisions, logAllowed, hcount]

theorem usageTokens_eq {events : List (Record U (UsageColumns U))} {rows : List (Row UsageCells)}
    (hrows : Forall₂ (RowOf enc (usageCodec enc dialect)) events rows) (principal : Principal) (subjectScoped : Bool)
    (from_ to_ : Instant) : usageTokens enc dialect rows principal subjectScoped from_ to_ =
      logTokens dialect events principal subjectScoped from_ to_ := by
  have hcells : ∀ (event : Record U (UsageColumns U)) (row : Row UsageCells), RowOf enc (usageCodec enc dialect) event row →
      row.columns = usageCells enc event.columns := fun _ _ hrow => (usageCells_of_bind dialect hrow.bound).1
  have hselected := Related.filter hrows
    (p := fun event => event.within from_ to_ && inScope principal subjectScoped event.columns.actor event.columns.team)
    (q := fun row => inWindow enc.toRfc3339 from_ to_ row && inScope principal subjectScoped row.columns.actor row.columns.team)
    fun event row hrow => by simp [hcells _ _ hrow, usageCells, hrow.within h]
  have hsums := Related.map hselected
    (f := fun event => ((event.columns.inputTokens.toNat + event.columns.outputTokens.toNat : Nat) : Int))
    (g := fun row => row.columns.inputTokens + row.columns.outputTokens)
    fun event row hrow => by simp [hcells _ _ hrow, usageCells]
  rw [← Function.comp_def (fun n : Nat => (n : Int)), ← List.map_map] at hsums
  simp only [usageTokens, logTokens, ← hsums]
  generalize (events.filter _).map _ = sums
  rw [← Nat.cast_list_sum, List.all_map, Int.toNat_natCast]
  norm_cast

end

/-! ### The model inventory -/

section

def ModelRowOf (enc : Encoding U J F) (model : ModelRecord) (row : ModelRow) : Prop :=
  row = ⟨model.alias_, model.path, model.role, model.weight.toNat, enc.toRfc3339 model.updatedAt⟩

variable {models : List ModelRecord} {rows : List ModelRow} (hrows : Forall₂ (ModelRowOf enc) models rows)

include hrows

variable (dialect) in
omit [LinearOrder U] in
theorem upsertModelRecord_eq (model : ModelRecord) :
    (upsertModelRecord enc dialect model rows).1 = (logModel dialect model models).1 ∧
      Forall₂ (ModelRowOf enc) (logModel dialect model models).2 (upsertModelRecord enc dialect model rows).2 := by
  have halias : ∀ (old : ModelRecord) (row : ModelRow), ModelRowOf enc old row →
      (old.alias_ == model.alias_) = (row.alias_ == model.alias_) := by
    intro old row hrow
    rw [hrow]
  have hany := Related.any hrows halias
  unfold upsertModelRecord logModel
  simp only [← hany]
  split
  · split
    · exact ⟨rfl, Related.replace hrows halias rfl⟩
    · exact ⟨rfl, rel_append hrows (.cons rfl .nil)⟩
  · exact ⟨rfl, hrows⟩

include h

theorem listModels_eq : listModels enc rows = .ok (models.insertionSort ModelRecord.Before) := by
  have hsorted : Forall₂ (ModelRowOf enc) (models.insertionSort ModelRecord.Before) (rows.insertionSort ModelRow.Before) := by
    refine Related.insertionSort ?_ hrows
    intro model row model' row' hrow hrow'
    rw [hrow, hrow']
    rfl
  refine Related.mapM hsorted.flip ?_
  intro row model hrow
  rw [show row = _ from hrow]
  have hweight : i64ToU32 model.weight.toNat "weight" = .ok model.weight := by
    have hlt := model.weight.toNat_lt
    simp [i64ToU32]
    omega
  simp only [readModelRow, hweight, readTime_toRfc3339 h]
  rfl

end

/-! ## Calls -/

/-- Every table holds the rows of its list. -/
structure LogOf (enc : Encoding U J F) (dialect : SqlDialect) (db : Database F) (log : EventLog U J F) : Prop where
  auditEvents : Forall₂ (RowOf enc (auditCodec enc dialect)) log.auditEvents db.auditEvents
  usageEvents : Forall₂ (RowOf enc (usageCodec enc dialect)) log.usageEvents db.usageEvents
  observationEvents : Forall₂ (RowOf enc (observationCodec enc dialect)) log.observationEvents db.observationEvents
  quotaDecisions : Forall₂ (RowOf enc (quotaCodec enc dialect)) log.quotaDecisions db.quotaDecisions
  requestLineageJoins : Forall₂ (RowOf enc (lineageCodec enc dialect)) log.requestLineageJoins db.requestLineageJoins
  modelInventory : Forall₂ (ModelRowOf enc) log.modelInventory db.modelInventory

omit [LinearOrder U] in
theorem logOf_empty : LogOf enc dialect {} {} := ⟨.nil, .nil, .nil, .nil, .nil, .nil⟩

/-- The documents that a call writes read back. -/
def StorageCall.Readable (enc : Encoding U J F) : StorageCall U J F → Prop
  | .insertAuditEvent event => enc.ReadsBack event.columns.detailJson
  | .insertObservationEvent event => enc.ReadsBack event.columns.attributesJson
  | .insertQuotaDecision decision => enc.ReadsBack decision.columns.policyJson
  | _ => True

include h

theorem call_eq {db : Database F} {log : EventLog U J F} {call : StorageCall U J F} (hlog : LogOf enc dialect db log)
    (hread : call.Readable enc) : (db.call enc dialect call).1 = (log.call enc.isNan dialect call).1 ∧
      LogOf enc dialect (db.call enc dialect call).2 (log.call enc.isNan dialect call).2 := by
  cases call with
  | insertAuditEvent event =>
    obtain ⟨hresult, hrows⟩ := insertEvent_eq h hlog.auditEvents (auditCodec_keeps h dialect) hread
    exact ⟨by simp only [Database.call, EventLog.call, hresult], { hlog with auditEvents := hrows }⟩
  | insertUsageEvent event =>
    obtain ⟨hresult, hrows⟩ := insertEvent_eq h hlog.usageEvents (usageCodec_keeps h dialect) trivial
    exact ⟨by simp only [Database.call, EventLog.call, hresult], { hlog with usageEvents := hrows }⟩
  | insertObservationEvent event =>
    obtain ⟨hresult, hrows⟩ := insertEvent_eq h hlog.observationEvents (observationCodec_keeps h dialect) hread
    exact ⟨by simp only [Database.call, EventLog.call, hresult], { hlog with observationEvents := hrows }⟩
  | insertQuotaDecision decision =>
    obtain ⟨hresult, hrows⟩ := insertEvent_eq h hlog.quotaDecisions (quotaCodec_keeps h dialect) hread
    exact ⟨by simp only [Database.call, EventLog.call, hresult], { hlog with quotaDecisions := hrows }⟩
  | insertRequestLineageJoin record =>
    obtain ⟨hresult, hrows⟩ := insertEvent_eq h hlog.requestLineageJoins (lineageCodec_keeps h dialect) trivial
    exact ⟨by simp only [Database.call, EventLog.call, hresult], { hlog with requestLineageJoins := hrows }⟩
  | upsertModelRecord model =>
    obtain ⟨hresult, hrows⟩ := upsertModelRecord_eq dialect hlog.modelInventory model
    exact ⟨by simp only [Database.call, EventLog.call, hresult], { hlog with modelInventory := hrows }⟩
  | deleteAuditEventsBefore cutoff =>
    obtain ⟨hcount, hrows⟩ := deleteAuditEventsBefore_eq h hlog.auditEvents cutoff
    exact ⟨by simp only [Database.call, EventLog.call, hcount], { hlog with auditEvents := hrows }⟩
  | auditEventsBetween from_ to_ limit =>
    exact ⟨by simp only [Database.call, EventLog.call, eventsBetweenLimited_eq h hlog.auditEvents from_ to_ limit], hlog⟩
  | usageEventsBetween from_ to_ limit =>
    exact ⟨by simp only [Database.call, EventLog.call, eventsBetweenLimited_eq h hlog.usageEvents from_ to_ limit], hlog⟩
  | observationEventsBetween from_ to_ limit =>
    exact ⟨by simp only [Database.call, EventLog.call, eventsBetweenLimited_eq h hlog.observationEvents from_ to_ limit], hlog⟩
  | quotaDecisionsBetween from_ to_ limit =>
    exact ⟨by simp only [Database.call, EventLog.call, eventsBetweenLimited_eq h hlog.quotaDecisions from_ to_ limit], hlog⟩
  | requestLineageJoinsBetween from_ to_ limit =>
    exact ⟨by simp only [Database.call, EventLog.call, eventsBetweenLimited_eq h hlog.requestLineageJoins from_ to_ limit], hlog⟩
  | auditEventsForRequest requestId =>
    refine ⟨?_, hlog⟩
    rw [Database.call, eventsForRequest_eq h hlog.auditEvents (auditCodec_keeps h dialect) requestId]
    rfl
  | usageEventsForRequest requestId =>
    refine ⟨?_, hlog⟩
    rw [Database.call, eventsForRequest_eq h hlog.usageEvents (usageCodec_keeps h dialect) requestId]
    rfl
  | observationEventsForRequest requestId =>
    refine ⟨?_, hlog⟩
    rw [Database.call, eventsForRequest_eq h hlog.observationEvents (observationCodec_keeps h dialect) requestId]
    rfl
  | quotaDecisionsForRequest requestId =>
    refine ⟨?_, hlog⟩
    rw [Database.call, eventsForRequest_eq h hlog.quotaDecisions (quotaCodec_keeps h dialect) requestId]
    rfl
  | requestLineageJoinsForRequest requestId =>
    refine ⟨?_, hlog⟩
    rw [Database.call, eventsForRequest_eq h hlog.requestLineageJoins (lineageCodec_keeps h dialect) requestId]
    rfl
  | requestLineageJoins =>
    refine ⟨?_, hlog⟩
    rw [Database.call, allEvents_eq h hlog.requestLineageJoins]
    rfl
  | auditRetentionCounts cutoff =>
    exact ⟨by simp only [Database.call, EventLog.call, auditRetentionCounts_eq h hlog.auditEvents cutoff], hlog⟩
  | allowedQuotaDecisionCount principal subjectScoped from_ to_ =>
    exact ⟨by simp only [Database.call, EventLog.call, allowedQuotaDecisions_eq h hlog.quotaDecisions principal subjectScoped from_ to_], hlog⟩
  | usageTokensTotal principal subjectScoped from_ to_ =>
    exact ⟨by simp only [Database.call, EventLog.call, usageTokens_eq h hlog.usageEvents principal subjectScoped from_ to_], hlog⟩
  | listModels =>
    refine ⟨?_, hlog⟩
    rw [Database.call, listModels_eq h hlog.modelInventory]
    rfl

end

/-! ## Written texts -/

def isUuidText (value : String) : Bool :=
  (value.toList.splitOn '-').map List.length == [8, 4, 4, 4, 12] &&
    value.toList.all fun c => c == '-' || c.isDigit || "abcdef".toList.contains c

/-- A UUID is as good as its text. -/
def UuidText : Type := { value : String // isUuidText value = true }

instance : LinearOrder UuidText := inferInstanceAs (LinearOrder { value : String // isUuidText value = true })

def writtenEncoding : Encoding UuidText Value Int where
  uuidText id := id.val
  parseStr value := if h : isUuidText value = true then some ⟨value, h⟩ else none
  toRfc3339 := writeRfc3339
  parseFromRfc3339 := readRfc3339
  jsonText := Value.render
  fromStr := Value.read .written .sorted
  isNan _ := false

theorem writtenEncoding_documented : writtenEncoding.Documented where
  times := rfc3339_written
  parsed id := dif_pos id.property
  sorted _ _ := Iff.rfl

def writtenUuid : UuidText := ⟨"0190f5e2-7d11-7c60-8f3a-2b9c5a1e4d07", by decide +kernel⟩

def springDay : Instant where
  year := 2017
  month := 5
  day := 9
  hour := 7
  minute := 31
  second := 2
  nanosecond := 5
  year_lt := by decide
  month_mem := by decide
  day_mem := by decide
  time_lt := by decide
  nanosecond_lt := by decide

def leapEvent : Record UuidText (AuditColumns UuidText Value) where
  id := writtenUuid
  at_ := leapSecond
  columns := ⟨none, "ana", "core", "chat.completions", "qwen", "accepted", Value.json .sorted [("reason", .string "ok")]⟩

def leapCalls : List (StorageCall UuidText Value Int) :=
  [.insertAuditEvent leapEvent, .insertAuditEvent leapEvent, .deleteAuditEventsBefore leapSecond,
    .auditEventsBetween leapSecond springDay none, .deleteAuditEventsBefore springDay]

theorem leapCalls_readable : ∀ call ∈ leapCalls, call.Readable writtenEncoding := by
  have hdoc : writtenEncoding.ReadsBack leapEvent.columns.detailJson := by
    simp only [Encoding.ReadsBack, writtenEncoding, leapEvent]
    apply Value.read_json
    · simp
    · simp [Value.Numeric]
    · simp [Value.keep]
  simp [leapCalls, StorageCall.Readable, hdoc]

end Llmctl.Tables
