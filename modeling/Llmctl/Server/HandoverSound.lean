import Llmctl.Server.Script
import Llmctl.Server.StreamSound

/-!
# What a request hands over

A request hands over at most once: either it spawns the decode of a native stream, or
the guard of a proxied stream hands over its last record. So no job that waits for its
task is replaced.
-/

namespace Llmctl

open Async

/-- Hands a job to the task of its request, or takes it there. -/
def ServerOp.passes : ServerOp → Bool
  | .task (.spawn _) | .task .start => true
  | _ => false

def ServerOp.arms : ServerOp → Bool
  | .body (.arm _) => true
  | _ => false

abbrev Jobless {α : Type} (p : ServerProg α) : Prop := p.All fun o : ServerOp => o.passes = false

/-- Passes no job, now or at a disconnect. -/
abbrev Plain {α : Type} (p : ServerProg α) : Prop := p.All fun o : ServerOp => o.passes = false ∧ o.arms = false

/-- No guard is armed and no job passed after a job, and no job is passed after a guard is armed. -/
def Apart {α : Type} : ServerProg α → Prop
  | .done _ => True
  | .call o k => ∀ a, (o.passes = true → Plain (k a)) ∧ (o.arms = true → Jobless (k a)) ∧ Apart (k a)

section
variable {α β : Type}

theorem Plain.jobless {p : ServerProg α} (h : Plain p) : Jobless p := h.mono fun _ ho => ho.1

theorem Jobless.apart {p : ServerProg α} (h : Jobless p) : Apart p := by
  induction p with
  | done a => trivial
  | call o k ih => exact fun a => ⟨fun ho => by simp [h.1] at ho, fun _ => h.2 a, ih a (h.2 a)⟩

theorem Plain.apart {p : ServerProg α} (h : Plain p) : Apart p := h.jobless.apart

theorem Apart.meets {p : ServerProg α} {f : α → ServerProg β} {Φ : α → Prop}
    (hp : p.Meets (fun o : ServerOp => o.passes = false ∧ o.arms = false) Φ) (hf : ∀ a, Φ a → Apart (f a)) :
    Apart (p >>= f) := by
  induction p with
  | done a => exact hf a hp
  | call o k ih =>
    intro a
    refine ⟨fun ho => ?_, fun ho => ?_, ih a (hp.2 a)⟩
    · simp [hp.1.1] at ho
    · simp [hp.1.2] at ho

theorem Apart.plain_bind {p : ServerProg α} {f : α → ServerProg β} (hp : Plain p) (hf : ∀ a, Apart (f a)) :
    Apart (p >>= f) :=
  Apart.meets (Prog.all_iff_meets.mp hp) fun a _ => hf a

theorem Apart.plain_op {o : ServerOp} (ho : o.passes = false ∧ o.arms = false) {f : ServerSig.Ans o → ServerProg α}
    (hf : ∀ a, Apart (f a)) : Apart (op o >>= f) :=
  fun a => ⟨fun h => by simp [ho.1] at h, fun h => by simp [ho.2] at h, hf a⟩

end

/-! ## Records -/

section
variable {α : Type}

theorem storage_plain (p : StoreProg α) : Plain (storage p) :=
  (Prog.all_of_forall (fun _ => trivial) p).lift (P := fun _ => True) fun _ _ => ⟨rfl, rfl⟩

theorem supervisor_plain (p : WorkerProg α) : Plain (supervisor p) :=
  (Prog.all_of_forall (fun _ => trivial) p).lift (P := fun _ => True) fun _ _ => ⟨rfl, rfl⟩

theorem op_plain {o : ServerOp} (ho : o.passes = false ∧ o.arms = false) {f : ServerSig.Ans o → ServerProg α}
    (hf : ∀ a, Plain (f a)) : Plain (op o >>= f) := ⟨ho, hf⟩

theorem elapsedMs_plain (started : Nat) : Plain (elapsedMs started) := ⟨⟨rfl, rfl⟩, fun _ => trivial⟩

theorem recordUsage_plain (input : UsageRecordInput) : Plain (recordUsage input) :=
  ⟨⟨rfl, rfl⟩, fun _ => (storage_plain _).bind fun _ => trivial⟩

theorem recordAudit_plain (requestId : Option Nat) (principal : Principal) (action resource outcome : String)
    (detail : Json) : Plain (recordAudit requestId principal action resource outcome detail) :=
  ⟨⟨rfl, rfl⟩, fun _ => (storage_plain _).bind fun _ => trivial⟩

theorem recordUpstreamFailure_plain (requestId : Nat) (principal : Principal) (model : String) (started : Nat)
    (status : String) : Plain (recordUpstreamFailure requestId principal model started status) :=
  (elapsedMs_plain started).bind fun _ => recordUsage_plain _

theorem recordRequestLineageJoins_plain (requestId : Nat) (corpus model : Option String) (source : String)
    (lineageIds : List String) : Plain (recordRequestLineageJoins requestId corpus model source lineageIds) := by
  induction lineageIds with
  | nil => trivial
  | cons lineageId lineageIds ih => exact ⟨⟨rfl, rfl⟩, fun _ => (storage_plain _).bind fun _ => ih⟩

theorem recorded_plain {started : Nat} {input : Nat → UsageRecordInput} {requestId : Option Nat} {principal : Principal}
    {action resource outcome : String} {detail : Json} {p : ServerProg α} (hp : Plain p) :
    Plain (do
      let latencyMs ← elapsedMs started
      recordUsage (input latencyMs)
      recordAudit requestId principal action resource outcome detail
      p) :=
  (elapsedMs_plain started).bind fun _ => (recordUsage_plain _).bind fun _ => (recordAudit_plain ..).bind fun _ => hp

end

/-! ## Responses -/

/-- What is left once the response is there. -/
def Response.Apart (response : Response) : Prop := Llmctl.Apart (respond response)

theorem Response.apart_of_body {response : Response} (h : ∀ generator, response.body = .stream generator → Llmctl.Apart generator) :
    response.Apart := by
  unfold Response.Apart respond
  cases hb : response.body with
  | stream generator =>
    have hgenerator : Llmctl.Apart (generator >>= fun _ => (pure (some response) : ServerProg (Option Response))) := by
      have hseq : ∀ p : ServerProg Unit, Llmctl.Apart p →
          Llmctl.Apart (p >>= fun _ => (pure (some response) : ServerProg (Option Response))) := by
        intro p hp
        induction p with
        | done a => trivial
        | call o k ih =>
          exact fun a => ⟨fun ho => ((hp a).1 ho).bind fun _ => trivial, fun ho => ((hp a).2.1 ho).bind fun _ => trivial,
            ih a (hp a).2.2⟩
      exact hseq generator (h generator hb)
    exact Apart.plain_op ⟨rfl, rfl⟩ fun _ => hgenerator
  | _ => trivial

theorem Response.apart_of_whole {response : Response} (h : ∀ generator, response.body ≠ .stream generator) : response.Apart :=
  Response.apart_of_body fun generator hb => absurd hb (h generator)

/-- A handler that hands over only through its response. -/
abbrev Replying (p : ServerProg Response) : Prop :=
  p.Meets (fun o : ServerOp => o.passes = false ∧ o.arms = false) Response.Apart

theorem Replying.respond {p : ServerProg Response} (h : Replying p) : Apart (p >>= respond) := Apart.meets h fun _ hr => hr

section
variable {requestId : Nat} {principal : Principal} {action resource outcome : String} {detail : Json}

theorem withRequestId_apart {response : Response} (h : ∀ generator, response.body ≠ .stream generator) :
    (withRequestId response requestId).Apart := Response.apart_of_whole h

theorem auditRejectResponse_replying {response : Response} (h : ∀ generator, response.body ≠ .stream generator) :
    Replying (auditRejectResponse requestId principal action resource outcome response detail) :=
  (recordAudit_plain ..).seq fun _ => withRequestId_apart h

theorem auditReject_replying (status : StatusCode) (code message : String) :
    Replying (auditReject requestId principal action resource outcome status code message detail) :=
  auditRejectResponse_replying fun _ hb => by cases hb

theorem authErrorResponse_whole_body (message : String) (generator : ServerProg Unit) :
    (authErrorResponse message).body ≠ .stream generator := by
  unfold authErrorResponse
  split <;> simp [errorResponse]

theorem routeErrorResponse_whole_body (err : ModelRouteError) (generator : ServerProg Unit) :
    (modelRouteErrorResponse err).body ≠ .stream generator := by
  cases err <;> simp [modelRouteErrorResponse, errorResponse]

end

/-! ## Upstreams -/

section
variable {st : ServerState}

theorem sendAttempt_plain (ctx : DispatchContext) (k : String) (target : DispatchTarget) (body : String) :
    Plain (sendAttempt ctx k target body) := by
  apply op_plain ⟨rfl, rfl⟩
  intro (sent : Sent)
  cases sent with
  | response r =>
    simp only
    split
    · exact op_plain ⟨rfl, rfl⟩ fun _ => op_plain ⟨rfl, rfl⟩ fun _ => op_plain ⟨rfl, rfl⟩ fun _ => trivial
    · split
      · exact op_plain ⟨rfl, rfl⟩ fun _ => trivial
      · trivial
  | failed isTimeout => exact op_plain ⟨rfl, rfl⟩ fun _ => (recordUpstreamFailure_plain ..).bind fun _ => trivial
  | timedOut => exact op_plain ⟨rfl, rfl⟩ fun _ => (recordUpstreamFailure_plain ..).bind fun _ => trivial

theorem dispatchAliases_plain (route : ResolvedModelRoute) (body : String) (ctx : DispatchContext) (aliases : List String) :
    ∀ last, Plain (dispatchAliases st route body ctx last aliases) := by
  induction aliases with
  | nil => exact fun _ => trivial
  | cons k aliases ih =>
    intro last
    unfold dispatchAliases
    split
    · trivial
    · split
      · trivial
      · rename_i rewritten _ _ target _
        have hattempt : Plain (dispatchAttempt ctx k target rewritten) := by
          apply op_plain ⟨rfl, rfl⟩
          intro (verdict : Verdict)
          cases verdict with
          | refused => trivial
          | _ => exact sendAttempt_plain ctx k target rewritten
        apply hattempt.bind
        intro turn
        cases turn with
        | inl response => trivial
        | inr failure => exact ih (some failure)

theorem streamFails_plain (ctx : UpstreamRequestContext) (status : StatusCode) (total : Nat × Nat) (outcome : String)
    (more : Json) (item : String) : Plain (streamFails ctx status total outcome more item) :=
  recorded_plain (op_plain ⟨rfl, rfl⟩ fun _ => op_plain ⟨rfl, rfl⟩ fun _ => trivial)

theorem streamEnds_plain (ctx : UpstreamRequestContext) (status : StatusCode) (total : Nat × Nat) (e : StreamEnd) :
    Plain (streamEnds ctx status total e) := by
  cases e with
  | done =>
    apply op_plain ⟨rfl, rfl⟩
    exact fun _ => (elapsedMs_plain _).bind fun _ => (recordUsage_plain _).bind fun _ => recordAudit_plain ..
  | _ => exact streamFails_plain ..

theorem streamChunks_plain (ctx : UpstreamRequestContext) (status : StatusCode) (chunks : Nat) :
    ∀ buffer total, Plain (streamChunks st ctx status chunks buffer total) := by
  induction chunks with
  | zero => exact fun _ total => op_plain ⟨rfl, rfl⟩ fun e => streamEnds_plain ctx status total e
  | succ chunks ih =>
    intro buffer total
    apply op_plain ⟨rfl, rfl⟩
    intro (chunk : Chunk)
    cases chunk with
    | ended e => exact streamEnds_plain ctx status total e
    | bytes text =>
      simp only
      split
      · exact streamFails_plain ..
      · exact op_plain ⟨rfl, rfl⟩ fun _ => op_plain ⟨rfl, rfl⟩ fun _ => ih _ _

/-- The body arms its guard once, at its start. -/
theorem streamBody_apart (ctx : UpstreamRequestContext) (status : StatusCode) (chunks : Nat) :
    Apart (streamBody st ctx status chunks) := by
  have hrest : Plain (do
      streamChunks st ctx status chunks [] (0, 0)
      op (.upstream .close)
      op (.permit .drop)) := by
    apply (streamChunks_plain ctx status chunks [] (0, 0)).bind
    exact fun _ => op_plain ⟨rfl, rfl⟩ fun _ => op_plain ⟨rfl, rfl⟩ fun _ => trivial
  exact fun _ => ⟨fun ho => by simp [ServerOp.passes] at ho, fun _ => hrest.jobless, hrest.apart⟩

theorem streamUpstream_replying (response : UpstreamResponse) (ctx : UpstreamRequestContext) :
    Replying (streamUpstream st response ctx) := by
  unfold streamUpstream
  split
  · apply Response.apart_of_body
    intro generator hb
    cases hb
    exact streamBody_apart ctx response.status response.chunks
  · apply (elapsedMs_plain _).seq
    intro latencyMs
    apply (recordUsage_plain _).seq
    intro _
    apply (recordAudit_plain ..).seq
    intro _
    exact ⟨⟨rfl, rfl⟩, fun _ => ⟨⟨rfl, rfl⟩, fun _ => withRequestId_apart fun _ hb => by cases hb⟩⟩

theorem jsonFails_replying (ctx : UpstreamRequestContext) (usageStatus : String) (status : StatusCode)
    (code message : String) : Replying (jsonFails ctx usageStatus status code message) := by
  apply (recordUpstreamFailure_plain ..).seq
  exact fun _ => ⟨⟨rfl, rfl⟩, fun _ => withRequestId_apart fun _ hb => by cases hb⟩

theorem jsonUpstream_replying (response : UpstreamResponse) (ctx : UpstreamRequestContext) :
    Replying (jsonUpstream st response ctx) := by
  refine ⟨⟨rfl, rfl⟩, fun (read : BodyRead) => ?_⟩
  cases read with
  | bytes text =>
    refine (elapsedMs_plain _).seq fun _ => (recordUsage_plain _).seq fun _ => (recordAudit_plain ..).seq fun _ => ?_
    refine ⟨⟨rfl, rfl⟩, fun _ => ?_⟩
    apply Response.apart_of_whole
    intro generator
    split <;> simp [withChatMetadata, buildResponse, withRequestId]
  | _ => exact jsonFails_replying ..

/-! ## Native engines -/

theorem runScheduledNativeChat_plain (engine : String) (request : NativeChatRequest) :
    Plain (runScheduledNativeChat engine request) := by
  unfold runScheduledNativeChat
  split
  · exact op_plain ⟨rfl, rfl⟩ fun _ => trivial
  · exact op_plain ⟨rfl, rfl⟩ fun _ => op_plain ⟨rfl, rfl⟩ fun _ => op_plain ⟨rfl, rfl⟩ fun _ => trivial

theorem scheduledNativeChat_plain (engine : String) (request : NativeChatRequest) :
    Plain (scheduledNativeChat engine request) := by
  apply op_plain ⟨rfl, rfl⟩
  intro _
  split
  · trivial
  · apply op_plain ⟨rfl, rfl⟩
    intro (slot : Bool)
    cases slot with
    | true => exact runScheduledNativeChat_plain engine request
    | false =>
      apply op_plain ⟨rfl, rfl⟩
      intro (place : Bool)
      cases place with
      | true => exact op_plain ⟨rfl, rfl⟩ fun _ => op_plain ⟨rfl, rfl⟩ fun _ => runScheduledNativeChat_plain engine request
      | false => trivial

theorem recorded_replying {started : Nat} {input : Nat → UsageRecordInput} {requestId : Option Nat} {principal : Principal}
    {action resource outcome : String} {detail : Json} {response : Response} (hr : response.Apart) :
    Replying (do
      let latencyMs ← elapsedMs started
      recordUsage (input latencyMs)
      recordAudit requestId principal action resource outcome detail
      op (.permit .drop)
      pure response) :=
  (elapsedMs_plain started).seq fun _ => (recordUsage_plain _).seq fun _ => (recordAudit_plain ..).seq fun _ =>
    ⟨⟨rfl, rfl⟩, fun _ => hr⟩

theorem nativeStreamCloses_plain (requestId : Nat) (model : String) : Plain (nativeStreamCloses requestId model) := by
  apply op_plain ⟨rfl, rfl⟩
  intro (outcome : NativeStreamOutcome)
  cases outcome with
  | done finishReason => exact op_plain ⟨rfl, rfl⟩ fun _ => op_plain ⟨rfl, rfl⟩ fun _ => trivial
  | failed => exact op_plain ⟨rfl, rfl⟩ fun _ => op_plain ⟨rfl, rfl⟩ fun _ => op_plain ⟨rfl, rfl⟩ fun _ => trivial

theorem nativeCompletionSseStream_plain (requestId : Nat) (model : String) (deltas : Nat) :
    Plain (nativeCompletionSseStream requestId model deltas) := by
  induction deltas with
  | zero => exact op_plain ⟨rfl, rfl⟩ fun _ => nativeStreamCloses_plain requestId model
  | succ deltas ih =>
    apply op_plain ⟨rfl, rfl⟩
    intro (token : Option String)
    cases token with
    | none => exact nativeStreamCloses_plain requestId model
    | some delta =>
      simp only
      split
      · exact ih
      · exact op_plain ⟨rfl, rfl⟩ fun _ => ih

theorem streamTask_plain (context : NativeChatContext) (request : NativeChatRequest) : Plain (streamTask context request) := by
  apply (scheduledNativeChat_plain context.upstreamModel request).bind
  intro result
  cases result with
  | ok response => exact recorded_plain (op_plain ⟨rfl, rfl⟩ fun _ => trivial)
  | error err => exact recorded_plain (op_plain ⟨rfl, rfl⟩ fun _ => trivial)

theorem nativeErrorResponse_whole_body (err : String) (generator : ServerProg Unit) :
    (nativeErrorResponse err).body ≠ .stream generator := by
  unfold nativeErrorResponse
  split <;> simp [errorResponse]

/-- Once the task is spawned the request hands over nothing more. -/
theorem nativeChatStreamResponse_apart (context : NativeChatContext) (request : NativeChatRequest) :
    Apart (nativeChatStreamResponse context request >>= respond) := by
  intro (deltas : Nat)
  have hgenerator : Plain (nativeCompletionSseStream context.requestId context.model deltas) :=
    nativeCompletionSseStream_plain ..
  have hrest : Plain (respond (withChatMetadata
      (buildResponse 200 (.stream (nativeCompletionSseStream context.requestId context.model deltas)) context.requestId)
      context.model context.upstreamModel "allowed")) :=
    ⟨⟨rfl, rfl⟩, fun _ => hgenerator.bind fun _ => trivial⟩
  exact ⟨fun _ => hrest, fun ho => by simp [ServerOp.arms] at ho, hrest.apart⟩

theorem dispatchNativeChat_apart (context : NativeChatContext) (request : ChatCompletionRequest) :
    Apart (dispatchNativeChat st context request >>= respond) := by
  unfold dispatchNativeChat
  split
  · exact (recorded_replying (withRequestId_apart fun _ hb => by cases hb)).respond
  · simp only
    split
    · exact nativeChatStreamResponse_apart context _
    · apply Replying.respond
      apply (scheduledNativeChat_plain _ _).seq
      intro result
      cases result with
      | error err => exact recorded_replying (withRequestId_apart (nativeErrorResponse_whole_body err))
      | ok response => exact recorded_replying (Response.apart_of_whole fun generator hb => by cases hb)

/-! ## The chat handler -/

theorem admitToWorker_meets (requestId : Nat) (upstreamAlias : String) :
    (admitToWorker st requestId upstreamAlias).Meets (fun o : ServerOp => o.passes = false ∧ o.arms = false) fun result =>
      ∀ response, result = .error response → response.Apart := by
  have hadmission : Plain (workerAdmission st upstreamAlias) := by
    unfold workerAdmission
    split
    · trivial
    · exact op_plain ⟨rfl, rfl⟩ fun _ => trivial
    · exact op_plain ⟨rfl, rfl⟩ fun _ => op_plain ⟨rfl, rfl⟩ fun _ => op_plain ⟨rfl, rfl⟩ fun _ => trivial
  have hunavailable : ∀ response, (.error (modelUnavailable requestId upstreamAlias) : Except Response Bool) =
      .error response → response.Apart := by
    intro response h
    cases h
    exact withRequestId_apart fun generator hb => by cases hb
  have htry : ∀ gate, Plain (tryEnter upstreamAlias gate) := by
    intro gate
    apply op_plain ⟨rfl, rfl⟩
    intro (open_ : Bool)
    cases open_ with
    | false => trivial
    | true =>
      apply op_plain ⟨rfl, rfl⟩
      intro _
      apply op_plain ⟨rfl, rfl⟩
      intro (open_ : Bool)
      cases open_ with
      | false => exact op_plain ⟨rfl, rfl⟩ fun _ => trivial
      | true => trivial
  apply hadmission.seq
  intro found
  cases found with
  | none => exact fun _ h => by cases h
  | some found =>
    cases found with
    | none => exact hunavailable
    | some gate =>
      apply (htry gate).seq
      intro entered
      cases entered with
      | true => exact fun _ h => by cases h
      | false => exact hunavailable

theorem leaveWorker_plain (guarded : Bool) : Plain (leaveWorker guarded) := by
  unfold leaveWorker
  split
  · exact ⟨⟨rfl, rfl⟩, fun _ => trivial⟩
  · trivial

section
variable (request : HttpRequest) (principal : Principal) (started : Nat) (route : ResolvedModelRoute)
  (chat : ChatCompletionRequest) (body : String)

theorem proxyChat_replying (admission : AdmissionPermit) (guarded : Bool) :
    Replying (proxyChat st request principal started route chat body admission guarded) := by
  apply (dispatchAliases_plain route body ⟨request.requestId, principal, route.requestedAlias, started⟩ _ none).seq
  intro result
  cases result with
  | ok answered =>
    simp only
    split
    · exact (streamUpstream_replying answered.1 (upstreamContext request principal started route chat answered.2 admission)).bind
        fun response hr => (leaveWorker_plain guarded).seq fun _ => hr
    · exact (jsonUpstream_replying answered.1 (upstreamContext request principal started route chat answered.2 admission)).bind
        fun response hr => (leaveWorker_plain guarded).seq fun _ => hr
  | error failure =>
    have hfailed : Replying (dispatchFailed request principal started route.requestedAlias failure) := by
      cases failure with
      | noUpstream message => exact withRequestId_apart fun generator hb => by cases hb
      | badRequest err => exact withRequestId_apart fun generator hb => by cases hb
      | request status code message usageStatus =>
        exact (elapsedMs_plain started).seq fun _ => (recordUsage_plain _).seq fun _ =>
          withRequestId_apart fun generator hb => by cases hb
    exact hfailed.bind fun response hr => (leaveWorker_plain guarded).seq fun _ => ⟨⟨rfl, rfl⟩, fun _ => hr⟩

theorem serveChat_apart (admission : AdmissionPermit) :
    Apart (serveChat st request principal started route chat body admission >>= respond) := by
  unfold serveChat
  split
  · split
    · exact (proxyChat_replying request principal started route chat body admission false).respond
    · apply Replying.respond
      apply (admitToWorker_meets request.requestId route.upstreamAlias).bind
      intro entered hentered
      cases entered with
      | error response => exact ⟨⟨rfl, rfl⟩, fun _ => hentered response rfl⟩
      | ok guarded => exact proxyChat_replying request principal started route chat body admission guarded
  · exact dispatchNativeChat_apart _ chat

theorem auditReject_apart {action resource outcome : String} {detail : Json} (status : StatusCode) (code message : String) :
    Apart (auditReject request.requestId principal action resource outcome status code message detail >>= respond) :=
  (auditReject_replying status code message).respond

theorem admitChat_apart : Apart (admitChat st request principal started route chat body >>= respond) := by
  unfold admitChat
  simp only [Prog.bind_assoc]
  apply Apart.plain_bind (recordRequestLineageJoins_plain ..)
  intro _
  apply Apart.plain_bind (storage_plain _)
  intro quota
  cases quota with
  | error err => exact auditReject_apart request principal _ _ _
  | ok quota =>
    by_cases hallowed : quota.allowed
    · simp only [hallowed, if_true, Prog.bind_assoc]
      apply Apart.plain_bind (recordAudit_plain ..)
      intro _
      apply Apart.plain_op ⟨rfl, rfl⟩
      intro (admitted : Bool)
      cases admitted with
      | true => exact serveChat_apart request principal started route chat body _
      | false => exact auditReject_apart request principal _ _ _
    · simp only [hallowed]
      exact auditReject_apart request principal _ _ _

theorem guardChat_apart : Apart (guardChat st request principal started route chat >>= respond) := by
  unfold guardChat
  simp only
  split
  · exact admitChat_apart request principal started route chat request.body
  · split
    · exact auditReject_apart request principal _ _ _
    · split
      · rw [Prog.bind_assoc]
        apply Apart.plain_bind (recordAudit_plain ..)
        intro _
        split
        · exact auditReject_apart request principal _ _ _
        · exact admitChat_apart request principal started route _ _
      · split
        · exact auditReject_apart request principal _ _ _
        · exact admitChat_apart request principal started route _ _

end

/-! ## Every request -/

theorem drainingResponse_meets (requestId : Nat) :
    (drainingResponse requestId).Meets (fun o : ServerOp => o.passes = false ∧ o.arms = false) fun result =>
      ∀ response, result = some response → response.Apart := by
  refine ⟨⟨rfl, rfl⟩, fun (draining : Bool) => ?_⟩
  cases draining with
  | true =>
    intro response h
    cases h
    exact withRequestId_apart fun generator hb => by cases hb
  | false => exact fun _ h => by cases h

theorem authenticateWithChatScope_meets (requestId : Nat) (action : String) :
    (authenticateWithChatScope requestId action).Meets (fun o : ServerOp => o.passes = false ∧ o.arms = false) fun result =>
      ∀ response, result = .error response → response.Apart := by
  refine Prog.Meets.op ⟨rfl, rfl⟩ fun (answer : Result Principal) => ?_
  have herror : ∀ response : Response, response.Apart →
      ∀ response', (.error response : Except Response Principal) = .error response' → response'.Apart := by
    intro response hr response' h
    cases h
    exact hr
  cases answer with
  | error err => exact (auditRejectResponse_replying (authErrorResponse_whole_body err)).bind fun response hr => herror response hr
  | ok principal =>
    have hforbidden : Replying (auditReject requestId principal action "unknown" "denied" 403 "forbidden" "missing chat scope"
        [("reason", "missing chat scope")]) := auditReject_replying 403 "forbidden" "missing chat scope"
    simp only
    split
    · exact fun _ h => by cases h
    · exact hforbidden.bind fun response hr => herror response hr

section
variable (request : HttpRequest)

/-- What a chat and an embeddings request have in common. -/
theorem authenticated_apart {action : String} {serve : Nat → Principal → ServerProg Response}
    (hserve : ∀ started principal, Apart (serve started principal >>= respond)) :
    Apart ((do
      match ← drainingResponse request.requestId with
      | some response => pure response
      | none =>
        let started ← op .instant
        match ← authenticateWithChatScope request.requestId action with
        | .error response => pure response
        | .ok principal => serve started principal : ServerProg Response) >>= respond) := by
  rw [Prog.bind_assoc]
  apply Apart.meets (drainingResponse_meets request.requestId)
  intro drained hdrained
  cases drained with
  | some response => exact hdrained response rfl
  | none =>
    dsimp only
    rw [Prog.bind_assoc]
    refine Apart.plain_op ⟨rfl, rfl⟩ fun (started : Nat) => ?_
    rw [Prog.bind_assoc]
    apply Apart.meets (authenticateWithChatScope_meets request.requestId action)
    intro authenticated hauthenticated
    cases authenticated with
    | error response => exact hauthenticated response rfl
    | ok principal => exact hserve started principal

theorem chatCompletions_apart : Apart (chatCompletions st request >>= respond) := by
  apply authenticated_apart request
  intro started principal
  cases st.parseChat request.body with
  | error err => exact auditReject_apart request principal _ _ _
  | ok chat =>
    dsimp only
    cases resolveModelRoute st.cfg chat.model request.requestId with
    | error err => exact (auditRejectResponse_replying (routeErrorResponse_whole_body err)).respond
    | ok route => exact guardChat_apart request principal started route chat

theorem nativeEmbeddingResponse_replying (principal : Principal) (started : Nat) (route : ResolvedModelRoute)
    (selection : NativeEmbeddingSelection) (response : NativeEmbeddingResponse) :
    Replying (nativeEmbeddingResponse request principal started route selection response) := by
  apply (elapsedMs_plain _).seq
  intro _
  apply (recordUsage_plain _).seq
  intro _
  exact (recordAudit_plain ..).seq fun _ => Response.apart_of_whole fun generator hb => by cases hb

theorem serveEmbeddings_replying (principal : Principal) (started : Nat) (route : ResolvedModelRoute)
    (embedding : EmbeddingRequest) : Replying (serveEmbeddings st request principal started route embedding) := by
  unfold serveEmbeddings
  split
  · exact auditReject_replying _ _ _
  · simp only
    split
    · unfold semanticEmbeddings
      split
      · exact auditReject_replying _ _ _
      · refine ⟨⟨rfl, rfl⟩, fun (embedded : Result NativeEmbeddingResponse) => ?_⟩
        cases embedded with
        | ok response => exact nativeEmbeddingResponse_replying request principal started route _ response
        | error err => exact auditReject_replying _ _ _
    · unfold fallbackEmbeddings
      split
      · exact nativeEmbeddingResponse_replying request principal started route _ _
      · exact withRequestId_apart fun generator hb => by cases hb

theorem nativeEmbeddings_apart : Apart (nativeEmbeddings st request >>= respond) := by
  apply authenticated_apart request
  intro started principal
  cases st.parseEmbedding request.body with
  | error err => exact auditReject_apart request principal _ _ _
  | ok embedding =>
    dsimp only
    split
    · exact auditReject_apart request principal _ _ _
    · cases resolveModelRoute st.cfg embedding.model request.requestId with
      | error err => exact (auditRejectResponse_replying (routeErrorResponse_whole_body err)).respond
      | ok route => exact (serveEmbeddings_replying request principal started route embedding).respond

end

theorem swapRejected_replying (request : AdminSwapRequest) (principal : Principal) (outcome reason : String)
    (status : StatusCode) (code message : String) :
    Replying (swapRejected request principal outcome reason (errorResponse status code message)) :=
  auditRejectResponse_replying fun generator hb => by cases hb

theorem adminSwap_replying (request : AdminSwapRequest) : Replying (adminSwap st request) := by
  refine Prog.Meets.op ⟨rfl, rfl⟩ fun (answer : Result Principal) => ?_
  cases answer with
  | error err => exact withRequestId_apart (authErrorResponse_whole_body err)
  | ok principal =>
    simp only
    split
    · exact swapRejected_replying ..
    · split
      · exact swapRejected_replying ..
      · split
        · exact swapRejected_replying ..
        · refine ⟨⟨rfl, rfl⟩, fun _ => (supervisor_plain _).seq fun execution => ⟨⟨rfl, rfl⟩, fun _ => ?_⟩⟩
          exact (recordAudit_plain ..).seq fun _ => withRequestId_apart fun generator hb => by cases hb

theorem underSupervisorLock_plain (p : WorkerProg WorkerStatus) : Plain (underSupervisorLock p) :=
  op_plain ⟨rfl, rfl⟩ fun _ => (supervisor_plain p).bind fun _ => op_plain ⟨rfl, rfl⟩ fun _ => trivial

theorem serve_apart (input : Input) : Apart (input.serve st) := by
  cases input with
  | chat request => exact chatCompletions_apart request
  | embeddings request => exact nativeEmbeddings_apart request
  | swap request => exact (adminSwap_replying request).respond
  | drain id => exact (underSupervisorLock_plain _).apart
  | stop id => exact (underSupervisorLock_plain _).apart

theorem runJob_plain (job : Job) : Plain (runJob job) := by
  cases job with
  | decode context request => exact (streamTask_plain context request).bind fun _ => trivial
  | disconnect data =>
    have hrecord : Plain (recordTerminal data streamDisconnectStatus) :=
      (elapsedMs_plain _).bind fun _ => (recordUsage_plain _).bind fun _ => recordAudit_plain ..
    exact hrecord.bind fun _ => trivial

theorem detachedTask_not_plain : ¬ Plain detachedTask := by
  rw [detachedTask_eq]
  intro h
  simpa [ServerOp.passes] using h.1.1

end

/-! ## Runs -/

/-- A job of the request waits, or its task has begun. -/
def Handed {R : Type} (c : ServerConf R) (r : R) : Prop := c.sh.jobs r ≠ none ∨ c.prog (.task r) ≠ some detachedTask

/-- Where a request stands: nothing is handed over yet, or its guard may be armed, or
it has spawned its task. -/
def Handing (p : ServerProg (Option Response)) (guard : Option StreamDisconnectData) (handed : Prop) : Prop :=
  Apart p ∧ guard = none ∧ ¬ handed ∨ Jobless p ∧ ¬ handed ∨ Plain p ∧ guard = none

structure HandedOnce {R : Type} (c : ServerConf R) : Prop where
  requests : ∀ r p, c.prog (.request r) = some p → Handing p (c.loc (.request r)).holding.guard (Handed c r)
  tasks : ∀ r p, c.prog (.task r) = some p → p = detachedTask ∨ Plain p

section
variable {R : Type} [DecidableEq R] {st : ServerState} {p : ServerProg (Option Response)} {o : ServerOp}
  {l : Local} {g : Server R} {i : Proc R} {r : R}

theorem Handing.mono {guard : Option StreamDisconnectData} {handed handed' : Prop} (h : Handing p guard handed)
    (himp : handed' → handed) : Handing p guard handed' := by
  rcases h with ⟨hp, hguard, hnot⟩ | ⟨hp, hnot⟩ | h
  · exact .inl ⟨hp, hguard, fun hh => hnot (himp hh)⟩
  · exact .inr (.inl ⟨hp, fun hh => hnot (himp hh)⟩)
  · exact .inr (.inr h)

theorem guard_of_not_arms (ho : o.arms = false) (a : ServerSig.Ans o) (hguard : l.holding.guard = none) :
    (o.loc a l).holding.guard = none := by
  cases o with
  | body o => cases o <;> simp_all [ServerOp.arms, ServerOp.loc, ServerOp.holding, BodyOp.guard]
  | _ => exact hguard

theorem arms_of_passes (ho : o.passes = true) : o.arms = false := by
  cases o <;> simp_all [ServerOp.arms, ServerOp.passes]

theorem jobs_of_not_passes (ho : o.passes = false) (a : ServerSig.Ans o) :
    (o.sh st (.request r) l g a).jobs = g.jobs := by
  cases o with
  | task o => cases o <;> simp_all [ServerOp.passes, ServerOp.sh, TaskOp.jobs]
  | _ => rfl

/-- Only its own request hands a job over, and only its task takes it. -/
theorem jobs_other (hi : i ≠ .request r) (a : ServerSig.Ans o) :
    (o.sh st i l g a).jobs r = g.jobs r ∨ i = .task r ∧ o = .task .start := by
  cases o with
  | task o =>
    cases i with
    | request r' =>
      have hr : r ≠ r' := fun hr => hi (by rw [hr])
      cases o <;> simp [ServerOp.sh, TaskOp.jobs, hr]
    | task r' =>
      by_cases hr : r = r'
      · subst hr
        cases o <;> simp [ServerOp.sh, TaskOp.jobs]
      · cases o <;> simp [ServerOp.sh, TaskOp.jobs, hr]
  | _ => exact .inl rfl

/-- The step of a request. -/
theorem Handing.answer {k : ServerSig.Ans o → ServerProg (Option Response)} {handed handed' : Prop}
    (h : Handing (.call o k) l.holding.guard handed) (a : ServerSig.Ans o) (himp : o.passes = false → handed' → handed) :
    Handing (k a) (o.loc a l).holding.guard handed' := by
  rcases h with ⟨hp, hguard, hnot⟩ | ⟨hp, hnot⟩ | ⟨hp, hguard⟩
  · obtain ⟨hpass, harm, hrest⟩ := hp a
    by_cases hs : o.passes = true
    · exact .inr (.inr ⟨hpass hs, guard_of_not_arms (arms_of_passes hs) a hguard⟩)
    · have hsame : ¬ handed' := fun hh => hnot (himp (by simpa using hs) hh)
      by_cases ha : o.arms = true
      · exact .inr (.inl ⟨harm ha, hsame⟩)
      · exact .inl ⟨hrest, guard_of_not_arms (by simpa using ha) a hguard, hsame⟩
  · exact .inr (.inl ⟨hp.2 a, fun hh => hnot (himp hp.1 hh)⟩)
  · exact .inr (.inr ⟨hp.2 a, guard_of_not_arms hp.1.2 a hguard⟩)

variable {c c' : ServerConf R} {label : Label ServerSig (Proc R) (ServerEvent R)}

/-- A task begins with a job. -/
theorem handed_of_answer {k : ServerSig.Ans o → ServerProg (Option Response)} {a : ServerSig.Ans o}
    (hp : c.prog (.task r) = some (.call o k)) (hc : (serverWorld R st).can (.task r) o a (c.loc (.task r)) c.sh = true) :
    Handed c r := by
  by_cases hfresh : c.prog (.task r) = some detachedTask
  · rw [hp, detachedTask_eq] at hfresh
    injection hfresh with hcall
    injection hcall with ho hk
    subst ho
    have hjob : c.sh.jobs r = some a := by simpa [serverWorld, ServerOp.can, Server.job] using hc
    exact .inl (by simp [hjob])
  · exact .inr hfresh

theorem plain_of_task {k : ServerSig.Ans o → ServerProg (Option Response)}
    (h : Prog.call o k = detachedTask ∨ Plain (.call o k)) (a : ServerSig.Ans o) : Plain (k a) := by
  rcases h with h | h
  · rw [detachedTask_eq] at h
    injection h with ho hk
    subst ho
    rw [eq_of_heq hk]
    exact runJob_plain a
  · exact h.2 a

omit [DecidableEq R] in
theorem handed_frame (hjobs : c'.sh.jobs r = c.sh.jobs r) (hprog : c'.prog (.task r) = c.prog (.task r)) :
    Handed c' r → Handed c r := by
  unfold Handed
  rw [hjobs, hprog]
  exact id

theorem jobs_drop {i : Proc R} (hi : i ≠ .request r) : (g.drop i o l).jobs r = g.jobs r := by
  unfold Server.drop
  cases l.holding.guard with
  | none => rfl
  | some data =>
    cases i with
    | request r' =>
      have hr : r ≠ r' := fun hr => hi (by rw [hr])
      simp [TaskOp.jobs, hr]
    | task r' => rfl

theorem HandedOnce.step (h : HandedOnce c) (hs : Step (serverWorld R st) c label c') : HandedOnce c' := by
  cases hs with
  | @answer i o k a hp hc =>
    constructor
    · intro r p hr
      by_cases hi : i = .request r
      · subst hi
        simp only [Function.update_self, Option.some.injEq] at hr ⊢
        subst hr
        refine (h.requests r _ hp).answer a fun ho => handed_frame ?_ ?_
        · exact congrFun (jobs_of_not_passes ho a) r
        · simp
      · have hir : Proc.request r ≠ i := fun he => hi he.symm
        simp only [Function.update_of_ne hir] at hr ⊢
        apply (h.requests r p hr).mono
        by_cases ht : i = .task r
        · subst ht
          exact fun _ => handed_of_answer hp hc
        · have hjobs : (o.sh st i (c.loc i) c.sh a).jobs r = c.sh.jobs r ∨ i = .task r ∧ o = .task .start := jobs_other hi a
          apply handed_frame
          · exact hjobs.resolve_right fun he => ht he.1
          · have hit : Proc.task r ≠ i := fun he => ht he.symm
            simp [Function.update_of_ne hit]
    · intro r p hr
      by_cases hi : i = .task r
      · subst hi
        simp only [Function.update_self, Option.some.injEq] at hr
        subst hr
        exact .inr (plain_of_task (h.tasks r _ hp) a)
      · have hir : Proc.task r ≠ i := fun he => hi he.symm
        simp only [Function.update_of_ne hir] at hr
        exact h.tasks r p hr
  | @drop i o k hp hd =>
    constructor
    · intro r p hr
      have hi : i ≠ .request r := by
        intro he
        subst he
        simp at hr
      have hir : Proc.request r ≠ i := fun he => hi he.symm
      simp only [Function.update_of_ne hir] at hr ⊢
      apply (h.requests r p hr).mono
      apply handed_frame
      · exact jobs_drop hi
      · -- only requests are dropped
        cases i with
        | request r' => simp
        | task r' => cases hd
    · intro r p hr
      cases i with
      | request r' =>
        simp only [Function.update_of_ne (by simp : Proc.task r ≠ Proc.request r')] at hr
        exact h.tasks r p hr
      | task r' => cases hd
  | env he =>
    constructor
    · intro r p hr
      apply (h.requests r p hr).mono
      apply handed_frame
      · show ((ServerEvent.apply c.sh _).jobs r) = _
        rw [ServerEvent.apply_eq]
      · rfl
    · exact h.tasks

omit [DecidableEq R] in
theorem handedOnce_start (workers : Workers) (inputs : R → Input) : HandedOnce (serverStart st workers inputs) := by
  constructor
  · intro r p hp
    cases hp
    refine .inl ⟨serve_apart (inputs r), rfl, ?_⟩
    simp [Handed, serverStart, restingServer]
  · intro r p hp
    cases hp
    exact .inl rfl

theorem handedOnce_reach {ok : ServerConf R → Label ServerSig (Proc R) (ServerEvent R) → Prop} {workers : Workers}
    {inputs : R → Input} (hr : Reach (serverWorld R st) ok (serverStart st workers inputs) c) : HandedOnce c :=
  hr.invariant (handedOnce_start workers inputs) fun _ _ _ h _ hs => h.step hs

omit [DecidableEq R] in
theorem jobs_of_not_handed (h : ¬ Handed c r) : c.sh.jobs r = none := by
  by_contra hjobs
  exact h (.inl hjobs)

omit [DecidableEq R] in
/-- No job waits where one is handed over. -/
theorem HandedOnce.spawn_free (h : HandedOnce c) {job : Job}
    {k : ServerSig.Ans (.task (.spawn job)) → ServerProg (Option Response)}
    (hp : c.prog i = some (.call (.task (.spawn job)) k)) : ∃ r, i = .request r ∧ c.sh.jobs r = none := by
  cases i with
  | request r =>
    refine ⟨r, rfl, ?_⟩
    rcases h.requests r _ hp with ⟨_, _, hnot⟩ | ⟨hjobless, _⟩ | ⟨hplain, _⟩
    · exact jobs_of_not_handed hnot
    · cases hjobless.1
    · cases hplain.1.1
  | task r =>
    rcases h.tasks r _ hp with htask | hplain
    · rw [detachedTask_eq] at htask
      injection htask with ho
      cases ho
    · cases hplain.1.1

theorem HandedOnce.guard_free (h : HandedOnce c) {k : ServerSig.Ans o → ServerProg (Option Response)}
    (hp : c.prog i = some (.call o k)) (hd : (serverWorld R st).canDrop i o = true) {data : StreamDisconnectData}
    (hguard : (c.loc i).holding.guard = some data) : ∃ r, i = .request r ∧ c.sh.jobs r = none := by
  cases i with
  | request r =>
    refine ⟨r, rfl, ?_⟩
    rcases h.requests r _ hp with ⟨_, hnone, _⟩ | ⟨_, hnot⟩ | ⟨_, hnone⟩
    · simp [hguard] at hnone
    · exact jobs_of_not_handed hnot
    · simp [hguard] at hnone
  | task r => cases hd

/-- A request hands over once: from then on its job only changes when its task takes it. -/
theorem handover_once {ok : ServerConf R → Label ServerSig (Proc R) (ServerEvent R) → Prop} {workers : Workers}
    {inputs : R → Input} (hr : Reach (serverWorld R st) ok (serverStart st workers inputs) c)
    (hs : Step (serverWorld R st) c label c') (hhanded : Handed c r) :
    Handed c' r ∧ (c'.sh.jobs r = c.sh.jobs r ∨
      c'.sh.jobs r = none ∧ ∃ job, c.sh.jobs r = some job ∧ label = .answer (.task r) (.task .start) job) := by
  have h := handedOnce_reach hr
  have hkept : ∀ c' : ServerConf R, c'.sh.jobs r = c.sh.jobs r → c'.prog (.task r) = c.prog (.task r) → Handed c' r ∧
      (c'.sh.jobs r = c.sh.jobs r ∨
        c'.sh.jobs r = none ∧ ∃ job, c.sh.jobs r = some job ∧ label = .answer (.task r) (.task .start) job) :=
    fun c' hjobs hprog => ⟨handed_frame hjobs.symm hprog.symm hhanded, .inl hjobs⟩
  cases hs with
  | @answer i o k a hp hc =>
    by_cases hi : i = .request r
    · subst hi
      apply hkept
      · rcases h.requests r _ hp with ⟨_, _, hnot⟩ | ⟨_, hnot⟩ | ⟨hplain, _⟩
        · exact absurd hhanded hnot
        · exact absurd hhanded hnot
        · exact congrFun (jobs_of_not_passes hplain.1.1 a) r
      · simp
    · by_cases ht : i = .task r
      · subst ht
        have hrest : Plain (k a) := plain_of_task (h.tasks r _ hp) a
        have hbegun : some (k a) ≠ some detachedTask := by
          intro he
          injection he with he
          rw [he] at hrest
          exact detachedTask_not_plain hrest
        refine ⟨.inr (by simpa using hbegun), ?_⟩
        have hjobs : (o.sh st (.task r) (c.loc (.task r)) c.sh a).jobs r = c.sh.jobs r ∨
            Proc.task r = .task r ∧ o = .task .start := jobs_other hi a
        rcases hjobs with hjobs | ⟨_, ho⟩
        · exact .inl hjobs
        · subst ho
          right
          have hjob : c.sh.jobs r = some a := by simpa [serverWorld, ServerOp.can, Server.job] using hc
          exact ⟨by simp [serverWorld, ServerOp.sh, TaskOp.jobs], a, hjob, rfl⟩
      · apply hkept
        · have hjobs : (o.sh st i (c.loc i) c.sh a).jobs r = c.sh.jobs r ∨ i = .task r ∧ o = .task .start := jobs_other hi a
          exact hjobs.resolve_right fun he => ht he.1
        · have hit : Proc.task r ≠ i := fun he => ht he.symm
          simp [Function.update_of_ne hit]
  | @drop i o k hp hd =>
    cases i with
    | task r' => cases hd
    | request r' =>
      apply hkept
      · by_cases hrr : r' = r
        · subst hrr
          have hguard : (c.loc (.request r')).holding.guard = none := by
            rcases h.requests r' _ hp with ⟨_, hguard, _⟩ | ⟨_, hnot⟩ | ⟨_, hguard⟩
            · exact hguard
            · exact absurd hhanded hnot
            · exact hguard
          simp [serverWorld, Server.drop, hguard]
        · exact jobs_drop fun he => hrr (by injection he)
      · simp
  | env he =>
    apply hkept
    · show (ServerEvent.apply c.sh _).jobs r = _
      rw [ServerEvent.apply_eq]
    · rfl

/-- The client of a native stream goes away; the decode of its task still waits. -/
theorem handover_survives_drop : ∃ c c' : ServerConf Unit, Reach (serverWorld Unit nativeNode) (fun _ _ => True)
    (serverStart nativeNode {} fun _ => chatInput 0 "stream") c ∧ c.sh.jobs () ≠ none ∧
    Step (serverWorld Unit nativeNode) c (.drop (.request ())) c' ∧ c'.sh.jobs () = c.sh.jobs () := by
  have hrun : ∃ c, Reach (serverWorld Unit nativeNode) (fun _ _ => True)
      (serverStart nativeNode {} fun _ => chatInput 0 "stream") c ∧
      c.sh.jobs () ≠ none ∧ (c.pending (.request ())).any ServerOp.isAwait = true := by
    refine Conf.exists_reach ((Proc.request ()).turns nativeNode {} 17) ?_
    decide +kernel
  obtain ⟨c, hr, hjob, hpending⟩ := hrun
  unfold Conf.pending at hpending
  split at hpending
  · rename_i o k hp
    have hawait : o.isAwait = true := by simpa using hpending
    have hs : Step (serverWorld Unit nativeNode) c (.drop (.request ())) _ := .drop hp hawait
    refine ⟨c, _, hr, hjob, hs, ?_⟩
    rcases (handover_once hr hs (.inl hjob)).2 with hsame | ⟨_, job, _, hlabel⟩
    · exact hsame
    · cases hlabel
  · cases hpending

end

end Llmctl
