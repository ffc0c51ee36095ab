import Llmctl.Reporting.KeyUsage
import Llmctl.Server.Routes

/-!
# Whose records a handler writes

Once a request is authenticated, its handler, its streamed body and what it hands to
its detached task write rows of its own request id and principal only, and audit rows
name the key of that principal.
-/

namespace Llmctl

open Async

/-! ## The key in a detail -/

section
variable {detail : Json} {key key' value : String}

theorem Json.get_orInsert_self : (detail.orInsert key value).get key = some ((detail.get key).getD value) := by
  unfold Json.orInsert Json.get
  split
  · rename_i h
    obtain ⟨field, hf⟩ := Option.isSome_iff_exists.mp (List.find?_isSome.mpr (List.any_eq_true.mp h))
    rw [hf]
    rfl
  · rename_i h
    have hnone : detail.find? (·.1 == key) = none := by
      rw [List.find?_eq_none]
      exact fun field hfield hk => h (List.any_eq_true.mpr ⟨field, hfield, hk⟩)
    rw [List.find?_append, hnone]
    simp

theorem Json.get_append (h : key ≠ key') : Json.get (detail ++ [(key, value)]) key' = detail.get key' := by
  unfold Json.get
  rw [List.find?_append]
  simp [h]

@[simp] theorem Json.get_orInsert (h : key ≠ key') : (detail.orInsert key value).get key' = detail.get key' := by
  unfold Json.orInsert
  split
  · rfl
  · exact Json.get_append h

@[simp] theorem Json.get_orInsertSome (h : key ≠ key') (value : Option String) :
    (detail.orInsertSome key value).get key' = detail.get key' := by
  cases value with
  | none => rfl
  | some value => exact Json.get_orInsert h

@[simp] theorem Json.get_insert (h : key ≠ key') : (detail.insert key value).get key' = detail.get key' := by
  unfold Json.insert
  rw [Json.get_append h]
  unfold Json.get
  rw [List.find?_filter]
  congr 2
  funext field
  by_cases hf : field.1 = key'
  · simp [hf, Ne.symm h]
  · simp [hf]

end

/-- No field of the detail is a key id of the handler's own. -/
abbrev Json.Keyless (detail : Json) : Prop := detail.get "api_key_id" = none

theorem get_apiKeyDetail (principal : Principal) {detail : Json} (h : detail.Keyless) :
    (apiKeyDetail principal detail).get "api_key_id" = principal.keyId := by
  unfold apiKeyDetail
  cases principal.keyId with
  | none => exact h
  | some keyId => simp [Json.get_orInsert_self, h]

theorem chatAuditDetail_keyless (tool : ToolAuditDetail) {detail : Json} (h : detail.Keyless) :
    (chatAuditDetail tool detail).Keyless := by
  unfold chatAuditDetail
  simpa [Json.Keyless] using h

theorem chatRouteAuditDetail_keyless (tool : ToolAuditDetail) {detail : Json} (h : detail.Keyless)
    (provider : Option ResolvedExternalProvider) : (chatRouteAuditDetail tool detail provider).Keyless := by
  unfold chatRouteAuditDetail
  cases provider <;> simpa [Json.Keyless] using chatAuditDetail_keyless tool h

/-! ## Rows of one identity -/

/-- The request id and the principal that rows are written for. -/
structure Identity where
  requestId : Nat
  principal : Principal
  deriving DecidableEq, Repr

def StreamDisconnectData.identity (data : StreamDisconnectData) : Identity := ⟨data.requestId, data.principal⟩

def Job.identity : Job → Identity
  | .decode context _ => ⟨context.requestId, context.principal⟩
  | .disconnect data => data.identity

/-- A row of `who`, a hand-over in its name, or no record at all. -/
def Identity.Records (who : Identity) : ServerOp → Prop
  | .store (.insertUsageEvent e) => e.requestId = who.requestId
  | .store (.insertAuditEvent e) => e.requestId = some who.requestId ∧ e.apiKeyId = who.principal.keyId
  | .body (.arm data) => data.identity = who
  | .task (.spawn job) => job.identity = who
  | .authenticate | .task .start => False
  | _ => True

abbrev Keeps {α : Type} (who : Identity) (p : ServerProg α) : Prop := p.All who.Records

/-- The body of the response, once it is polled, keeps to `who` as well. -/
def Identity.Answers (who : Identity) (response : Response) : Prop :=
  match response.body with
  | .stream generator => Keeps who generator
  | _ => True

abbrev Replies (who : Identity) (p : ServerProg Response) : Prop := p.Meets who.Records who.Answers

section
variable {who : Identity} {requestId : Nat} {principal : Principal}

theorem respond_keeps {response : Response} (h : who.Answers response) : Keeps who (respond response) := by
  obtain ⟨status, id, metadata, body⟩ := response
  cases body with
  | stream generator =>
    have hgenerator : Keeps who generator := h
    exact ⟨trivial, fun _ => hgenerator.bind fun _ => trivial⟩
  | _ => trivial

theorem Replies.respond {p : ServerProg Response} (h : Replies who p) : Keeps who (p >>= respond) :=
  Prog.all_iff_meets.mpr (h.bind fun _ hr => Prog.all_iff_meets.mp (respond_keeps hr))

/-! ## Records -/

theorem elapsedMs_keeps (started : Nat) : Keeps who (elapsedMs started) := ⟨trivial, fun _ => trivial⟩

/-- One row is one query. -/
theorem query_keeps {α : Type} {statement : StoreProg (Result α)} (h : Keeps who (storage statement)) :
    Keeps who (storage (Storage.query statement)) := by
  refine ⟨trivial, fun acquired => ?_⟩
  cases acquired with
  | error err => trivial
  | ok _ =>
    show Keeps who (storage (statement >>= fun answer => _))
    rw [storage, Prog.lift_bind]
    exact Prog.All.bind h fun answer => ⟨trivial, fun _ => trivial⟩

theorem insertUsageEvent_keeps {event : UsageEvent} (h : event.requestId = who.requestId) :
    Keeps who (storage (Storage.insertUsageEvent event)) := query_keeps ⟨h, fun _ => trivial⟩

theorem insertAuditEvent_keeps {event : AuditEvent} (hid : event.requestId = some who.requestId)
    (hkey : event.apiKeyId = who.principal.keyId) : Keeps who (storage (Storage.insertAuditEvent event)) :=
  query_keeps ⟨⟨hid, hkey⟩, fun _ => trivial⟩

theorem recordUsage_keeps (input : UsageRecordInput) : Keeps ⟨input.requestId, input.principal⟩ (recordUsage input) :=
  ⟨trivial, fun _ => (insertUsageEvent_keeps rfl).bind fun _ => trivial⟩

theorem recordAudit_keeps (action resource outcome : String) {detail : Json} (h : detail.Keyless) :
    Keeps ⟨requestId, principal⟩ (recordAudit (some requestId) principal action resource outcome detail) := by
  refine ⟨trivial, fun now => (insertAuditEvent_keeps rfl ?_).bind fun _ => trivial⟩
  exact get_apiKeyDetail principal h

theorem recordUpstreamFailure_keeps (model : String) (started : Nat) (status : String) :
    Keeps ⟨requestId, principal⟩ (recordUpstreamFailure requestId principal model started status) :=
  (elapsedMs_keeps started).bind fun latencyMs => recordUsage_keeps ⟨requestId, principal, model, 0, 0, latencyMs, status⟩

theorem recordRequestLineageJoins_keeps (corpus model : Option String) (source : String) (lineageIds : List String) :
    Keeps who (recordRequestLineageJoins requestId corpus model source lineageIds) := by
  induction lineageIds with
  | nil => trivial
  | cons lineageId lineageIds ih =>
    have hinsert : ∀ record, Keeps who (storage (Storage.insertRequestLineageJoin record)) := fun record =>
      query_keeps ⟨trivial, fun _ => trivial⟩
    exact ⟨trivial, fun _ => (hinsert _).bind fun _ => ih⟩

theorem auditRejectResponse_replies (action resource outcome : String) {response : Response} {detail : Json}
    (hr : Identity.Answers ⟨requestId, principal⟩ response) (h : detail.Keyless) :
    Replies ⟨requestId, principal⟩ (auditRejectResponse requestId principal action resource outcome response detail) :=
  (recordAudit_keeps action resource outcome h).seq fun _ => hr

theorem auditReject_replies (action resource outcome : String) (status : StatusCode) (code message : String)
    {detail : Json} (h : detail.Keyless) :
    Replies ⟨requestId, principal⟩
      (auditReject requestId principal action resource outcome status code message detail) :=
  auditRejectResponse_replies action resource outcome trivial h

/-- The usage row, the audit row and the rest of a branch that ends a request. -/
theorem recorded_keeps {α : Type} {started : Nat} {model status : String} {input output : Nat}
    {action resource outcome : String} {detail : Json} {p : ServerProg α} (h : detail.Keyless)
    (hp : Keeps ⟨requestId, principal⟩ p) :
    Keeps ⟨requestId, principal⟩ (do
      let latencyMs ← elapsedMs started
      recordUsage ⟨requestId, principal, model, input, output, latencyMs, status⟩
      recordAudit (some requestId) principal action resource outcome detail
      p) :=
  (elapsedMs_keeps started).bind fun latencyMs =>
    (recordUsage_keeps ⟨requestId, principal, model, input, output, latencyMs, status⟩).bind fun _ =>
      (recordAudit_keeps action resource outcome h).bind fun _ => hp

/-! ## Dispatch -/

variable {st : ServerState}

theorem sendAttempt_keeps (ctx : DispatchContext) (k : String) (target : DispatchTarget) (body : String) :
    Keeps ⟨ctx.requestId, ctx.principal⟩ (sendAttempt ctx k target body) := by
  refine Prog.All.op trivial fun (sent : Sent) => ?_
  cases sent with
  | response r =>
    simp only
    split
    · exact ⟨trivial, fun _ => ⟨trivial, fun _ => ⟨trivial, fun _ => trivial⟩⟩⟩
    · split
      · exact ⟨trivial, fun _ => trivial⟩
      · trivial
  | failed isTimeout => exact ⟨trivial, fun _ => (recordUpstreamFailure_keeps ..).bind fun _ => trivial⟩
  | timedOut => exact ⟨trivial, fun _ => (recordUpstreamFailure_keeps ..).bind fun _ => trivial⟩

theorem dispatchAliases_keeps (route : ResolvedModelRoute) (body : String) (ctx : DispatchContext)
    (aliases : List String) : ∀ last, Keeps ⟨ctx.requestId, ctx.principal⟩ (dispatchAliases st route body ctx last aliases) := by
  induction aliases with
  | nil => exact fun _ => trivial
  | cons k aliases ih =>
    intro last
    unfold dispatchAliases
    split
    · trivial
    · split
      · trivial
      · rename_i rewritten _ _ target _
        have hattempt : Keeps ⟨ctx.requestId, ctx.principal⟩ (dispatchAttempt ctx k target rewritten) := by
          refine Prog.All.op trivial fun (verdict : Verdict) => ?_
          cases verdict with
          | refused => trivial
          | closed => exact sendAttempt_keeps ctx k target rewritten
          | probe => exact sendAttempt_keeps ctx k target rewritten
        refine hattempt.bind fun turn => ?_
        cases turn with
        | inl response => trivial
        | inr failure => exact ih (some failure)

/-! ## Answers of an upstream -/

theorem streamDetail_keyless (ctx : UpstreamRequestContext) (status : StatusCode) {more : Json} (h : more.Keyless) :
    (streamDetail ctx status more).Keyless := by
  apply chatRouteAuditDetail_keyless
  exact h

theorem streamFails_keeps (ctx : UpstreamRequestContext) (status : StatusCode) (total : Nat × Nat) (outcome : String)
    {more : Json} (h : more.Keyless) (item : String) :
    Keeps ⟨ctx.requestId, ctx.principal⟩ (streamFails ctx status total outcome more item) :=
  recorded_keeps (streamDetail_keyless ctx status h) ⟨trivial, fun _ => ⟨trivial, fun _ => trivial⟩⟩

theorem streamEnds_keeps (ctx : UpstreamRequestContext) (status : StatusCode) (total : Nat × Nat) (e : StreamEnd) :
    Keeps ⟨ctx.requestId, ctx.principal⟩ (streamEnds ctx status total e) := by
  cases e with
  | failed isTimeout => exact streamFails_keeps ctx status total _ rfl _
  | timedOut => exact streamFails_keeps ctx status total _ rfl _
  | done =>
    refine ⟨trivial, fun _ => (elapsedMs_keeps ctx.started).bind fun latencyMs => ?_⟩
    refine (recordUsage_keeps ⟨ctx.requestId, ctx.principal, ctx.model, total.1, total.2, latencyMs, _⟩).bind fun _ => ?_
    exact recordAudit_keeps _ _ _ (streamDetail_keyless ctx status rfl)

theorem streamChunks_keeps (ctx : UpstreamRequestContext) (status : StatusCode) (chunks : Nat) :
    ∀ buffer total, Keeps ⟨ctx.requestId, ctx.principal⟩ (streamChunks st ctx status chunks buffer total) := by
  induction chunks with
  | zero => exact fun _ total => ⟨trivial, fun e => streamEnds_keeps ctx status total e⟩
  | succ chunks ih =>
    refine fun buffer total => Prog.All.op trivial fun (chunk : Chunk) => ?_
    cases chunk with
    | ended e => exact streamEnds_keeps ctx status total e
    | bytes text =>
      simp only
      split
      · exact streamFails_keeps ctx status total _ rfl _
      · exact ⟨trivial, fun _ => ⟨trivial, fun _ => ih _ _⟩⟩

theorem recordTerminal_keeps (data : StreamDisconnectData) (status : String) :
    Keeps data.identity (recordTerminal data status) := by
  refine (elapsedMs_keeps data.started).bind fun latencyMs => ?_
  refine (recordUsage_keeps ⟨data.requestId, data.principal, data.model, _, _, latencyMs, status⟩).bind fun _ => ?_
  exact recordAudit_keeps _ _ _ (chatRouteAuditDetail_keyless _ rfl _)

theorem streamUpstream_replies (response : UpstreamResponse) (ctx : UpstreamRequestContext) :
    Replies ⟨ctx.requestId, ctx.principal⟩ (streamUpstream st response ctx) := by
  unfold streamUpstream
  split
  · show Keeps _ (streamBody st ctx response.status response.chunks)
    refine ⟨rfl, fun _ => (streamChunks_keeps ctx response.status response.chunks [] (0, 0)).bind fun _ => ?_⟩
    exact ⟨trivial, fun _ => ⟨trivial, fun _ => trivial⟩⟩
  · refine (elapsedMs_keeps ctx.started).seq fun latencyMs => ?_
    refine (recordUsage_keeps ⟨ctx.requestId, ctx.principal, ctx.model, 0, 0, latencyMs, _⟩).seq fun _ => ?_
    refine (recordAudit_keeps _ _ _ (streamDetail_keyless ctx response.status rfl)).seq fun _ => ?_
    exact ⟨trivial, fun _ => ⟨trivial, fun _ => trivial⟩⟩

theorem jsonFails_replies (ctx : UpstreamRequestContext) (usageStatus : String) (status : StatusCode)
    (code message : String) : Replies ⟨ctx.requestId, ctx.principal⟩ (jsonFails ctx usageStatus status code message) :=
  (recordUpstreamFailure_keeps ctx.model ctx.started usageStatus).seq fun _ => ⟨trivial, fun _ => trivial⟩

theorem jsonUpstream_replies (response : UpstreamResponse) (ctx : UpstreamRequestContext) :
    Replies ⟨ctx.requestId, ctx.principal⟩ (jsonUpstream st response ctx) := by
  refine ⟨trivial, fun (read : BodyRead) => ?_⟩
  cases read with
  | failed isTimeout => exact jsonFails_replies ..
  | timedOut => exact jsonFails_replies ..
  | bytes text =>
    refine (elapsedMs_keeps ctx.started).seq fun latencyMs => ?_
    refine (recordUsage_keeps ⟨ctx.requestId, ctx.principal, ctx.model, _, _, latencyMs, _⟩).seq fun _ => ?_
    refine (recordAudit_keeps _ _ _ (chatRouteAuditDetail_keyless ctx.toolAudit rfl ctx.externalProvider)).seq fun _ => ?_
    refine ⟨trivial, fun _ => ?_⟩
    show Identity.Answers _ (if response.status.isSuccess then _ else _)
    split <;> trivial

/-! ## Native engines -/

theorem runScheduledNativeChat_keeps (engine : String) (request : NativeChatRequest) :
    Keeps who (runScheduledNativeChat engine request) := by
  unfold runScheduledNativeChat
  split
  · exact ⟨trivial, fun _ => trivial⟩
  · exact ⟨trivial, fun _ => ⟨trivial, fun _ => ⟨trivial, fun _ => trivial⟩⟩⟩

theorem scheduledNativeChat_keeps (engine : String) (request : NativeChatRequest) :
    Keeps who (scheduledNativeChat engine request) := by
  refine Prog.All.op trivial fun _ => ?_
  split
  · trivial
  · refine Prog.All.op trivial fun (slot : Bool) => ?_
    cases slot with
    | true => exact runScheduledNativeChat_keeps engine request
    | false =>
      refine Prog.All.op trivial fun (place : Bool) => ?_
      cases place with
      | true => exact ⟨trivial, fun _ => ⟨trivial, fun _ => runScheduledNativeChat_keeps engine request⟩⟩
      | false => trivial

/-- The records and the freed permit before the response to a native request. -/
theorem recorded_replies {started : Nat} {model status : String} {input output : Nat}
    {action resource outcome : String} {detail : Json} (h : detail.Keyless) {response : Response}
    (hr : Identity.Answers ⟨requestId, principal⟩ response) :
    Replies ⟨requestId, principal⟩ (do
      let latencyMs ← elapsedMs started
      recordUsage ⟨requestId, principal, model, input, output, latencyMs, status⟩
      recordAudit (some requestId) principal action resource outcome detail
      op (.permit .drop)
      pure response) :=
  (elapsedMs_keeps started).seq fun latencyMs =>
    (recordUsage_keeps ⟨requestId, principal, model, input, output, latencyMs, status⟩).seq fun _ =>
      (recordAudit_keeps action resource outcome h).seq fun _ => ⟨trivial, fun _ => hr⟩

theorem nativeStreamCloses_keeps (model : String) : Keeps who (nativeStreamCloses requestId model) := by
  refine ⟨trivial, fun (outcome : NativeStreamOutcome) => ?_⟩
  cases outcome with
  | done finishReason => exact ⟨trivial, fun _ => ⟨trivial, fun _ => trivial⟩⟩
  | failed => exact ⟨trivial, fun _ => ⟨trivial, fun _ => ⟨trivial, fun _ => trivial⟩⟩⟩

theorem nativeCompletionSseStream_keeps (model : String) (deltas : Nat) :
    Keeps who (nativeCompletionSseStream requestId model deltas) := by
  induction deltas with
  | zero => exact ⟨trivial, fun _ => nativeStreamCloses_keeps model⟩
  | succ deltas ih =>
    refine Prog.All.op trivial fun (token : Option String) => ?_
    cases token with
    | none => exact nativeStreamCloses_keeps model
    | some delta =>
      simp only
      split
      · exact ih
      · exact ⟨trivial, fun _ => ih⟩

theorem streamTask_keeps (context : NativeChatContext) (request : NativeChatRequest) :
    Keeps ⟨context.requestId, context.principal⟩ (streamTask context request) := by
  refine (scheduledNativeChat_keeps context.upstreamModel request).bind fun result => ?_
  cases result with
  | ok response => exact recorded_keeps (chatAuditDetail_keyless _ rfl) ⟨trivial, fun _ => trivial⟩
  | error err => exact recorded_keeps rfl ⟨trivial, fun _ => trivial⟩

theorem nativeErrorResponse_answers (err : String) : who.Answers (withRequestId (nativeErrorResponse err) requestId) := by
  unfold nativeErrorResponse
  split <;> trivial

theorem dispatchNativeChat_replies (context : NativeChatContext) (request : ChatCompletionRequest) :
    Replies ⟨context.requestId, context.principal⟩ (dispatchNativeChat st context request) := by
  unfold dispatchNativeChat
  split
  · exact recorded_replies rfl trivial
  · simp only
    split
    · exact ⟨rfl, fun (deltas : Nat) => nativeCompletionSseStream_keeps context.model deltas⟩
    · refine (scheduledNativeChat_keeps _ _).seq fun result => ?_
      cases result with
      | error err => exact recorded_replies rfl (nativeErrorResponse_answers err)
      | ok response => exact recorded_replies (chatAuditDetail_keyless _ rfl) trivial

/-! ## The chat handler -/

theorem admitToWorker_keeps (upstreamAlias : String) :
    (admitToWorker st requestId upstreamAlias).Meets who.Records fun result =>
      ∀ response, result = .error response → who.Answers response := by
  have hadmission : Keeps who (workerAdmission st upstreamAlias) := by
    unfold workerAdmission
    split
    · trivial
    · exact ⟨trivial, fun _ => trivial⟩
    · exact ⟨trivial, fun _ => ⟨trivial, fun _ => ⟨trivial, fun _ => trivial⟩⟩⟩
  have htry : ∀ gate, Keeps who (tryEnter upstreamAlias gate) := by
    refine fun gate => Prog.All.op trivial fun (open_ : Bool) => ?_
    cases open_ with
    | false => trivial
    | true =>
      refine Prog.All.op trivial fun _ => Prog.All.op trivial fun (open_ : Bool) => ?_
      cases open_ with
      | false => exact Prog.All.op trivial fun _ => trivial
      | true => trivial
  have hunavailable : ∀ response, (.error (modelUnavailable requestId upstreamAlias) : Except Response Bool) =
      .error response → who.Answers response := by
    rintro response ⟨⟩
    trivial
  refine hadmission.seq fun found => ?_
  match found with
  | none => exact fun _ h => by cases h
  | some none => exact hunavailable
  | some (some gate) =>
    refine (htry gate).seq fun entered => ?_
    cases entered with
    | true => exact fun _ h => by cases h
    | false => exact hunavailable

theorem leaveWorker_keeps (guarded : Bool) : Keeps who (leaveWorker guarded) := by
  unfold leaveWorker
  split
  · exact ⟨trivial, fun _ => trivial⟩
  · trivial

section
variable (request : HttpRequest) (principal : Principal) (started : Nat) (route : ResolvedModelRoute)
  (chat : ChatCompletionRequest) (body : String)

theorem proxyChat_replies (admission : AdmissionPermit) (guarded : Bool) :
    Replies ⟨request.requestId, principal⟩ (proxyChat st request principal started route chat body admission guarded) := by
  refine (dispatchAliases_keeps route body ⟨request.requestId, principal, route.requestedAlias, started⟩ _ none).seq ?_
  intro result
  cases result with
  | ok answered =>
    simp only
    split
    · exact (streamUpstream_replies answered.1 (upstreamContext request principal started route chat answered.2 admission)).bind
        fun response hr => (leaveWorker_keeps guarded).seq fun _ => hr
    · exact (jsonUpstream_replies answered.1 (upstreamContext request principal started route chat answered.2 admission)).bind
        fun response hr => (leaveWorker_keeps guarded).seq fun _ => hr
  | error failure =>
    have hfailed : Replies ⟨request.requestId, principal⟩
        (dispatchFailed request principal started route.requestedAlias failure) := by
      cases failure with
      | noUpstream message => trivial
      | badRequest err => trivial
      | request status code message usageStatus =>
        exact (elapsedMs_keeps started).seq fun latencyMs =>
          (recordUsage_keeps ⟨request.requestId, principal, _, 0, 0, latencyMs, usageStatus⟩).seq fun _ => trivial
    exact hfailed.bind fun response hr => (leaveWorker_keeps guarded).seq fun _ => ⟨trivial, fun _ => hr⟩

theorem serveChat_replies (admission : AdmissionPermit) :
    Replies ⟨request.requestId, principal⟩ (serveChat st request principal started route chat body admission) := by
  unfold serveChat
  split
  · split
    · exact proxyChat_replies request principal started route chat body admission false
    · refine (admitToWorker_keeps route.upstreamAlias).bind fun entered hentered => ?_
      cases entered with
      | error response => exact ⟨trivial, fun _ => hentered response rfl⟩
      | ok guarded => exact proxyChat_replies request principal started route chat body admission guarded
  · exact dispatchNativeChat_replies ⟨request.requestId, principal, route.requestedAlias, route.upstreamAlias,
      chat.toolAuditDetail, started, admission⟩ chat

/-! ## The admission -/

/-- The quota check and its guard touch no record. -/
def StoreOp.isRecord : StoreOp → Bool
  | .insertUsageEvent _ | .insertAuditEvent _ => true
  | _ => false

abbrev Recordless {α : Type} (p : StoreProg α) : Prop := p.All fun o : StoreOp => o.isRecord = false

theorem query_recordless {α : Type} {statement : StoreProg (Result α)} (h : Recordless statement) :
    Recordless (Storage.query statement) := by
  refine Prog.All.op rfl fun acquired => ?_
  cases acquired with
  | error err => trivial
  | ok _ => exact h.bind fun answer => ⟨rfl, fun _ => trivial⟩

theorem firstExhausted_recordless (limit : QuotaConfig → Nat) {count : QuotaConfig → StoreProg (Result Nat)}
    (hcount : ∀ q, Recordless (count q)) (reason : QuotaConfig → Nat → String)
    (quotas : List QuotaConfig) : Recordless (firstExhausted limit count reason quotas) := by
  induction quotas with
  | nil => trivial
  | cons q quotas ih =>
    unfold firstExhausted
    split
    · refine (hcount q).bind fun used => ?_
      cases used with
      | error err => trivial
      | ok used =>
        simp only
        split
        · trivial
        · exact ih
    · exact ih

theorem checkQuota_recordless (quotas : List QuotaConfig) (model : String) :
    Recordless (checkQuota quotas principal model) := by
  have hadmitted : ∀ b from_ to_, Recordless (Storage.allowedQuotaDecisionCount principal b from_ to_) :=
    fun _ _ _ => query_recordless ⟨rfl, fun _ => trivial⟩
  have hused : ∀ b from_ to_, Recordless (Storage.usageTokensTotal principal b from_ to_) :=
    fun _ _ _ => query_recordless ⟨rfl, fun _ => trivial⟩
  unfold checkQuota
  simp only
  split
  · trivial
  · split
    · trivial
    · refine Prog.All.op rfl fun now => ?_
      refine (firstExhausted_recordless _ (fun q => hadmitted _ _ _) _ _).bind fun result => ?_
      match result with
      | .error err => trivial
      | .ok (some denied) => trivial
      | .ok none =>
        refine (firstExhausted_recordless _ (fun q => hused _ _ _) _ _).bind fun result => ?_
        match result with
        | .error err => trivial
        | .ok (some denied) => trivial
        | .ok none => trivial

theorem checkAndRecord_recordless (quotas : List QuotaConfig) (model : String) (id : Option Nat) (policyJson : Json) :
    Recordless (checkAndRecord quotas principal model id policyJson) := by
  refine (checkQuota_recordless principal quotas model).bind fun result => ?_
  cases result with
  | error err => trivial
  | ok decision =>
    refine Prog.All.op rfl fun now => ?_
    have hinsert : ∀ row, Recordless (Storage.insertQuotaDecision row) := fun row =>
      query_recordless ⟨rfl, fun _ => trivial⟩
    refine (hinsert _).bind fun inserted => ?_
    cases inserted <;> trivial

theorem quotaAdmissionGuard_recordless (storage : Storage) (scope : String) :
    Recordless (storage.quotaAdmissionGuard scope) := by
  refine Prog.All.op rfl fun _ => ?_
  split
  · trivial
  · refine Prog.All.op rfl fun guard => ?_
    cases guard with
    | error err => exact ⟨rfl, fun _ => trivial⟩
    | ok _ =>
      refine Prog.All.op rfl fun locked => ?_
      cases locked with
      | error err => exact ⟨rfl, fun _ => ⟨rfl, fun _ => trivial⟩⟩
      | ok _ => trivial

theorem release_recordless (storage : Storage) (scope : String) :
    Recordless (storage.release scope) := by
  unfold Storage.release
  split
  · exact ⟨rfl, fun _ => trivial⟩
  · refine Prog.All.op rfl fun unlocked => ?_
    cases unlocked with
    | ok _ => exact ⟨rfl, fun _ => ⟨rfl, fun _ => trivial⟩⟩
    | error err => exact ⟨rfl, fun _ => ⟨rfl, fun _ => trivial⟩⟩

theorem records_of_isRecord {o : StoreOp} (h : o.isRecord = false) : who.Records (.store o) := by
  cases o with
  | insertUsageEvent e => cases h
  | insertAuditEvent e => cases h
  | _ => trivial

theorem admitRequest_keeps (quotas : List QuotaConfig) (model : String) (id : Option Nat) (policyJson : Json) :
    Keeps who (storage (admitRequest st.storage quotas principal model id policyJson)) := by
  have hadmit : Recordless (admitRequest st.storage quotas principal model id policyJson) := by
    refine (quotaAdmissionGuard_recordless st.storage (quotaAdmissionScope principal)).bind fun guard => ?_
    cases guard with
    | error err => trivial
    | ok _ =>
      refine (checkAndRecord_recordless principal quotas model id policyJson).bind fun result => ?_
      exact (release_recordless st.storage (quotaAdmissionScope principal)).bind fun _ => trivial
  exact hadmit.lift fun o ho => records_of_isRecord ho

theorem admitChat_replies :
    Replies ⟨request.requestId, principal⟩ (admitChat st request principal started route chat body) := by
  refine (recordRequestLineageJoins_keeps request.corpus _ _ request.lineageIds).seq fun _ => ?_
  refine (admitRequest_keeps principal st.cfg.quotas route.requestedAlias _ _).seq fun quota => ?_
  cases quota with
  | error err => exact auditReject_replies _ _ _ _ _ _ rfl
  | ok quota =>
    simp only
    split
    · refine (recordAudit_keeps _ _ _ (chatRouteAuditDetail_keyless _ rfl _)).seq fun _ => ?_
      refine Prog.Meets.op trivial fun (admitted : Bool) => ?_
      cases admitted with
      | true => exact serveChat_replies request principal started route chat body _
      | false => exact auditReject_replies _ _ _ _ _ _ rfl
    · exact auditReject_replies _ _ _ _ _ _ rfl

theorem guardChat_replies :
    Replies ⟨request.requestId, principal⟩ (guardChat st request principal started route chat) := by
  unfold guardChat
  simp only
  split
  · exact admitChat_replies request principal started route chat request.body
  · split
    · exact auditReject_replies _ _ _ _ _ _ rfl
    · split
      · refine (recordAudit_keeps _ _ _ rfl).seq fun _ => ?_
        split
        · exact auditReject_replies _ _ _ _ _ _ rfl
        · exact admitChat_replies request principal started route _ _
      · split
        · exact auditReject_replies _ _ _ _ _ _ rfl
        · exact admitChat_replies request principal started route _ _

end

/-! ## The other handlers -/

section
variable (request : HttpRequest) (principal : Principal) (started : Nat) (route : ResolvedModelRoute)
  (selection : NativeEmbeddingSelection)

theorem nativeEmbeddingResponse_replies (response : NativeEmbeddingResponse) :
    Replies ⟨request.requestId, principal⟩
      (nativeEmbeddingResponse request principal started route selection response) := by
  refine (elapsedMs_keeps started).seq fun latencyMs => ?_
  refine (recordUsage_keeps ⟨request.requestId, principal, _, _, 0, latencyMs, _⟩).seq fun _ => ?_
  exact (recordAudit_keeps _ _ _ rfl).seq fun _ => trivial

theorem serveEmbeddings_replies (embedding : EmbeddingRequest) :
    Replies ⟨request.requestId, principal⟩ (serveEmbeddings st request principal started route embedding) := by
  unfold serveEmbeddings
  split
  · exact auditReject_replies _ _ _ _ _ _ rfl
  · simp only
    split
    · unfold semanticEmbeddings
      split
      · exact auditReject_replies _ _ _ _ _ _ rfl
      · refine Prog.Meets.op trivial fun (embedded : Result NativeEmbeddingResponse) => ?_
        cases embedded with
        | ok response => exact nativeEmbeddingResponse_replies request principal started route _ response
        | error err => exact auditReject_replies _ _ _ _ _ _ rfl
    · unfold fallbackEmbeddings
      split
      · exact nativeEmbeddingResponse_replies request principal started route _ _
      · trivial

end

theorem supervisor_keeps {α : Type} (p : WorkerProg α) : Keeps who (supervisor p) :=
  (Prog.all_of_forall (P := fun _ => True) (fun _ => trivial) p).lift fun _ _ => trivial

theorem swapRejected_replies (request : AdminSwapRequest) (principal : Principal) (outcome reason : String)
    (status : StatusCode) (code message : String) :
    Replies ⟨request.requestId, principal⟩
      (swapRejected request principal outcome reason (errorResponse status code message)) :=
  auditRejectResponse_replies _ _ _ trivial rfl

end

end Llmctl
