import Llmctl.Server.Admin
import Llmctl.QuotaSound

/-!
# The typestate of the handlers

`Serving`: what a future of the server holds and has done at each of its calls.
Every request, task and operator keeps it (`serverStart_typed`).
-/

namespace Llmctl

open Async

/-! ## The typestate -/

/-- No attempt on an upstream and no decode is under way. -/
structure Quiet (h : Holding) : Prop where
  attempt : h.attempt = none
  queued : h.queued = none
  slot : h.slot = none
  decode : h.decode = none

/-- In the hands of a scheduler, under an admission permit. -/
structure Scheduled (h : Holding) (queued slot decode : Option String) : Prop where
  attempt : h.attempt = none
  permit : h.permit ≠ none
  queued : h.queued = queued
  slot : h.slot = slot
  decode : h.decode = decode

/-- In an attempt on an upstream, under an admission permit. -/
structure Attempting (h : Holding) (a : Attempt) : Prop where
  attempt : h.attempt = some a
  permit : h.permit ≠ none
  queued : h.queued = none
  slot : h.slot = none
  decode : h.decode = none

/-- What a process may do besides: take an admission permit, stream an upstream's
answer, change the workers, start one, call an engine for embeddings. -/
structure Role where
  admits : Bool := false
  streams : Bool := false
  supervises : Bool := false
  starts : Bool := false
  embeds : Bool := false

def Role.chat (stream : Bool) : Role where
  admits := true
  streams := stream

def chatUrl (planned : PlannedWorker) : String := s!"{planned.worker.upstream}/v1/chat/completions"

def Endpoint (st : ServerState) (url : String) : Prop :=
  ∃ planned ∈ StartupPlan.fromConfig st.host st.cfg, url = chatUrl planned

section
variable (st : ServerState) (role : Role)

def Ready : ServerOp → Holding → Prop
  | .permit (.tryAcquireForAll _), h => Quiet h ∧ h.permit = none ∧ role.admits = true
  | .permit .drop, h => Quiet h ∧ h.permit ≠ none
  | .breaker (.allowRequest ..), h => Quiet h ∧ h.permit ≠ none ∧ h.upstream = none
  | .breaker (.recordSuccess u), h | .breaker (.recordFailure u), h => ∃ a, Attempting h a ∧ a.upstream = u
  | .upstream (.send k url _ _), h => (∃ a, Attempting h a ∧ a.upstreamAlias = k) ∧ h.upstream = none ∧ Endpoint st url
  | .upstream .readBody, h | .upstream .nextChunk, h | .upstream .lastChunk, h => Quiet h ∧ h.permit ≠ none
  | .gate (.increment ..), h => Quiet h ∧ h.worker = none ∧ h.upstream = none
  | .gate .decrement, h =>
    Quiet h ∧ h.worker ≠ none ∧ ∀ b, h.upstream = some b → role.streams = true ∧ b.status.isSuccess = true
  | .sched (.chat ..), h => Quiet h ∧ h.permit ≠ none
  | .sched (.tryAcquire _), h | .sched (.enterQueue _), h => Scheduled h none none none
  | .sched (.acquire e), h => Scheduled h (some e) none none
  | .sched (.leaveQueue e), h => Scheduled h (some e) (some e) none
  | .sched (.spawnBlocking e _), h | .sched (.release e), h => Scheduled h none (some e) none
  | .sched .join, h => ∃ e, Scheduled h none (some e) (some e)
  | .sched (.embeddings ..), h => h = {} ∧ role.embeds = true
  | .task (.spawn (.decode context _)), h => Quiet h ∧ h.permit = some context.admission ∧ role.admits = true
  | .task (.spawn (.disconnect _)), _ => False
  | .task .start, h => h = {}
  | .worker .lockSupervisor, h => Quiet h ∧ h.supervisor = none
  | .worker .unlockSupervisor, h =>
    Quiet h ∧ ∃ tenure, h.supervisor = some tenure ∧ (role.starts = true → tenure.unsettled = [])
  | .worker (.getAdmission _), h => Quiet h
  | .worker (.insertAdmission _), h => Quiet h ∧ h.supervisor ≠ none ∧ role.supervises = true ∧ role.starts = true
  | .worker (.updateStatus id .ready), h =>
    Quiet h ∧ role.supervises = true ∧ ∃ tenure, h.supervisor = some tenure ∧ tenure.opened = some id
  | .worker _, h => Quiet h ∧ h.supervisor ≠ none ∧ role.supervises = true
  | _, h => Quiet h

/-- A decode leads to one usage row at most, and to the row after the decode. -/
def Once : ServerOp → Trace → Prop
  | .store (.insertUsageEvent _), t => t.decoded ≠ [] → t.usage = []
  | .sched (.spawnBlocking ..), t => t.decoded = [] ∧ t.usage = []
  | .sched .join, t => t.decoded ≠ [] ∧ t.usage = []
  | .gate (.increment k gate), t => t.gate = some (k, gate) ∧ (t.decoded ≠ [] → t.usage.length ≤ 1)
  | _, t => t.decoded ≠ [] → t.usage.length ≤ 1

/-- `granted` is what the admission has left behind wherever a permit is held. -/
def Serving (granted : Seen → Prop) (o : ServerOp) (l : Local) : Prop :=
  Ready st role o l.holding ∧ (l.holding.permit ≠ none → granted l.call.seen) ∧ Once o l.trace

/-- After a decode its usage row is there, unless the storage has failed. -/
def Accounted (t : Trace) : Prop :=
  t.decoded ≠ [] → t.usage.length = 1 ∨ t.usage = [] ∧ t.storeFailed = true

/-- At its end a future holds nothing, and a decode of its has its usage row. -/
def Served (_ : Option Response) (l : Local) : Prop := l.holding = {} ∧ Accounted l.trace

end

/-- The allowed decision of the request is on record. -/
def Granted (requestId : Nat) (s : Seen) : Prop :=
  ∃ row, s.inserted = some row ∧ row.allowed = true ∧ row.requestId = some requestId

/-- Whether an embeddings request selects an engine that is loaded. -/
def Input.embeds (st : ServerState) : Input → Bool
  | .embeddings request =>
    match st.parseEmbedding request.body with
    | .error _ => false
    | .ok embedding =>
      match resolveModelRoute st.cfg embedding.model request.requestId with
      | .error _ => false
      | .ok route =>
        match nativeEmbeddingSelection st.cfg route with
        | .error _ => false
        | .ok selection => selection.mode == .semantic && st.nativeEngines.contains selection.modelAlias
  | _ => false

def Input.role (st : ServerState) : Input → Role
  | .chat request =>
    match st.parseChat request.body with
    | .ok parsed => .chat parsed.stream
    | .error _ => .chat false
  | .embeddings request => { embeds := (Input.embeddings request).embeds st }
  | .swap _ => { supervises := true, starts := true }
  | .drain _ | .stop _ => { supervises := true }

/-- What the admission of a request leaves behind. -/
def Input.admitted : Input → Seen → Prop
  | .chat request => Granted request.requestId
  | _ => fun _ => False

def Proc.role {R : Type} (st : ServerState) (inputs : R → Input) : Proc R → Role
  | .request r => (inputs r).role st
  | .task _ => {}

def Proc.admitted {R : Type} (inputs : R → Input) : Proc R → Seen → Prop
  | .request r => (inputs r).admitted
  | .task _ => fun _ => True

def Proc.serving {R : Type} (st : ServerState) (inputs : R → Input) (i : Proc R) : ServerOp → Local → Prop :=
  Serving st (i.role st inputs) (i.admitted inputs)

/-! ## Records -/

/-- Between two awaits of a handler, outside of attempts and decodes. -/
structure Resting (granted : Seen → Prop) (c : Call) (h : Holding) : Prop where
  held : c.held = {}
  quiet : Quiet h
  granted : h.permit ≠ none → granted c.seen

/-- `t'` is `t` after records of which `usage` landed usage rows unless a query failed. -/
structure Recorded (usage : Nat) (t t' : Trace) : Prop where
  stage : t'.stage = t.stage
  sent : t'.sent = t.sent
  handed : t'.handed = t.handed
  decoded : t'.decoded = t.decoded
  gate : t'.gate = t.gate
  failed : t.storeFailed = true → t'.storeFailed = true
  usage : t'.usage.length = t.usage.length + usage ∨ t'.usage.length < t.usage.length + usage ∧ t'.storeFailed = true

theorem Recorded.refl (t : Trace) : Recorded 0 t t := by
  constructor <;> simp

theorem Recorded.failing (t : Trace) (n : Nat) : Recorded n t { t with storeFailed := true } := by
  constructor <;> simp
  omega

theorem Recorded.usage_le {t t' : Trace} {n : Nat} (h : Recorded n t t') :
    t'.usage.length ≤ t.usage.length + n := by
  rcases h.usage with hu | ⟨hu, _⟩ <;> omega

theorem Recorded.landed (t : Trace) (e : UsageEvent) : Recorded 1 t { t with usage := t.usage ++ [e] } := by
  constructor <;> simp

theorem Recorded.audited (t : Trace) (e : AuditEvent) : Recorded 0 t { t with audit := t.audit ++ [e] } := by
  constructor <;> simp

theorem Recorded.trans {t t' t'' : Trace} {m n : Nat} (h : Recorded m t t') (h' : Recorded n t' t'') :
    Recorded (m + n) t t'' where
  stage := h'.stage.trans h.stage
  sent := h'.sent.trans h.sent
  handed := h'.handed.trans h.handed
  decoded := h'.decoded.trans h.decoded
  gate := h'.gate.trans h.gate
  failed hf := h'.failed (h.failed hf)
  usage := by
    rcases h'.usage with hu' | ⟨hu', hf⟩
    · rcases h.usage with hu | ⟨hu, hf⟩
      · left; omega
      · right; exact ⟨by omega, h'.failed hf⟩
    · have := h.usage_le
      right; exact ⟨by omega, hf⟩

section
variable {R : Type} [DecidableEq R] {st : ServerState} {i : Proc R} {role : Role} {granted : Seen → Prop}
  {c : Call} {h : Holding} {t : Trace}

theorem elapsedMs_always (hr : Resting granted c h) (ht : t.decoded ≠ [] → t.usage.length ≤ 1) (started : Nat) :
    Always (serverWorld R st) i (Serving st role granted) (fun _ l => l = ⟨c, h, t⟩) (elapsedMs started) ⟨c, h, t⟩ :=
  Always.op ⟨hr.quiet, hr.granted, ht⟩ fun _ _ _ => rfl

theorem insertUsage_always (hr : Resting granted c h) (ht : t.decoded ≠ [] → t.usage = []) (e : UsageEvent) :
    Always (serverWorld R st) i (Serving st role granted) (fun _ l => ∃ t', l = ⟨c, h, t'⟩ ∧ Recorded 1 t t')
      (storage (Storage.insertUsageEvent e)) ⟨c, h, t⟩ := by
  obtain ⟨held, seen⟩ := c
  obtain rfl : held = {} := hr.held
  have hle : t.decoded ≠ [] → t.usage.length ≤ 1 := fun hd => by simp [ht hd]
  refine ⟨⟨hr.quiet, hr.granted, hle⟩, fun a _ _ => ?_⟩
  cases a with
  | error err => exact ⟨{ t with storeFailed := true }, rfl, .failing t 1⟩
  | ok _ =>
    refine ⟨⟨hr.quiet, hr.granted, ht⟩, fun a _ _ => ?_⟩
    cases a with
    | error err =>
      exact ⟨⟨hr.quiet, hr.granted, hle⟩, fun _ _ _ => ⟨{ t with storeFailed := true }, rfl, .failing t 1⟩⟩
    | ok _ =>
      have hone : t.decoded ≠ [] → (t.usage ++ [e]).length ≤ 1 := fun hd => by simp [ht hd]
      exact ⟨⟨hr.quiet, hr.granted, hone⟩, fun _ _ _ => ⟨{ t with usage := t.usage ++ [e] }, rfl, .landed t e⟩⟩

theorem insertAudit_always (hr : Resting granted c h) (ht : t.decoded ≠ [] → t.usage.length ≤ 1) (e : AuditEvent) :
    Always (serverWorld R st) i (Serving st role granted) (fun _ l => ∃ t', l = ⟨c, h, t'⟩ ∧ Recorded 0 t t')
      (storage (Storage.insertAuditEvent e)) ⟨c, h, t⟩ := by
  obtain ⟨held, seen⟩ := c
  obtain rfl : held = {} := hr.held
  refine ⟨⟨hr.quiet, hr.granted, ht⟩, fun a _ _ => ?_⟩
  cases a with
  | error err => exact ⟨{ t with storeFailed := true }, rfl, .failing t 0⟩
  | ok _ =>
    refine ⟨⟨hr.quiet, hr.granted, ht⟩, fun a _ _ => ⟨⟨hr.quiet, hr.granted, ?_⟩, fun _ _ _ => ?_⟩⟩
    · cases a <;> exact ht
    · cases a with
      | error err => exact ⟨{ t with storeFailed := true }, rfl, .failing t 0⟩
      | ok _ => exact ⟨{ t with audit := t.audit ++ [e] }, rfl, .audited t e⟩

theorem insertLineage_always (hr : Resting granted c h) (ht : t.decoded ≠ [] → t.usage.length ≤ 1)
    (record : RequestLineageJoinRecord) :
    Always (serverWorld R st) i (Serving st role granted) (fun _ l => ∃ t', l = ⟨c, h, t'⟩ ∧ Recorded 0 t t')
      (storage (Storage.insertRequestLineageJoin record)) ⟨c, h, t⟩ := by
  obtain ⟨held, seen⟩ := c
  obtain rfl : held = {} := hr.held
  refine ⟨⟨hr.quiet, hr.granted, ht⟩, fun a _ _ => ?_⟩
  cases a with
  | error err => exact ⟨{ t with storeFailed := true }, rfl, .failing t 0⟩
  | ok _ =>
    refine ⟨⟨hr.quiet, hr.granted, ht⟩, fun a _ _ => ⟨⟨hr.quiet, hr.granted, ht⟩, fun _ _ _ => ⟨t, ?_, .refl t⟩⟩⟩
    cases a <;> rfl

/-- What follows a record is checked from each trace that the record can leave. -/
theorem Always.recorded {α β : Type} {p : ServerProg β} {f : β → ServerProg α} {Ψ : α → Local → Prop} {n : Nat}
    {l : Local} (hp : Always (serverWorld R st) i (Serving st role granted)
      (fun _ l => ∃ t', l = ⟨c, h, t'⟩ ∧ Recorded n t t') p l)
    (hf : ∀ b t', Recorded n t t' → Always (serverWorld R st) i (Serving st role granted) Ψ (f b) ⟨c, h, t'⟩) :
    Always (serverWorld R st) i (Serving st role granted) Ψ (p >>= f) l := by
  refine hp.seq fun b l' hl' => ?_
  obtain ⟨t', rfl, ht'⟩ := hl'
  exact hf b t' ht'

theorem recordUsage_always (hr : Resting granted c h) (ht : t.decoded ≠ [] → t.usage = []) (input : UsageRecordInput) :
    Always (serverWorld R st) i (Serving st role granted) (fun _ l => ∃ t', l = ⟨c, h, t'⟩ ∧ Recorded 1 t t')
      (recordUsage input) ⟨c, h, t⟩ := by
  refine Always.op ⟨hr.quiet, hr.granted, fun hd => by simp [ht hd]⟩ fun _ _ _ => ?_
  exact Always.recorded (insertUsage_always hr ht _) fun _ t' ht' => ⟨t', rfl, ht'⟩

theorem recordAudit_always (hr : Resting granted c h) (ht : t.decoded ≠ [] → t.usage.length ≤ 1)
    (requestId : Option Nat) (principal : Principal) (action resource outcome : String) (detail : Json) :
    Always (serverWorld R st) i (Serving st role granted) (fun _ l => ∃ t', l = ⟨c, h, t'⟩ ∧ Recorded 0 t t')
      (recordAudit requestId principal action resource outcome detail) ⟨c, h, t⟩ := by
  refine Always.op ⟨hr.quiet, hr.granted, ht⟩ fun _ _ _ => ?_
  exact Always.recorded (insertAudit_always hr ht _) fun _ t' ht' => ⟨t', rfl, ht'⟩

/-- The latency, the usage row and the audit row of a request that decodes nothing. -/
theorem undecoded_always {α : Type} {Ψ : α → Local → Prop} (hr : Resting granted c h) (ht : t.decoded = [])
    {started : Nat} {input : Nat → UsageRecordInput} {requestId : Option Nat} {principal : Principal}
    {action resource outcome : String} {detail : Json} {rest : ServerProg α}
    (hrest : ∀ t', t'.decoded = [] → Always (serverWorld R st) i (Serving st role granted) Ψ rest ⟨c, h, t'⟩) :
    Always (serverWorld R st) i (Serving st role granted) Ψ
      (do
        let latencyMs ← elapsedMs started
        recordUsage (input latencyMs)
        recordAudit requestId principal action resource outcome detail
        rest) ⟨c, h, t⟩ := by
  apply (elapsedMs_always hr (fun hd => absurd ht hd) _).seq
  rintro latencyMs _ rfl
  refine Always.recorded (recordUsage_always hr (fun hd => absurd ht hd) _) fun _ t₁ ht₁ => ?_
  have hn₁ := ht₁.decoded.trans ht
  refine Always.recorded (recordAudit_always hr (fun hd => absurd hn₁ hd) _ _ _ _ _ _) fun _ t₂ ht₂ => ?_
  exact hrest t₂ (ht₂.decoded.trans hn₁)

theorem recordUpstreamFailure_always (hr : Resting granted c h) (ht : t.decoded ≠ [] → t.usage = [])
    (requestId : Nat) (principal : Principal) (model : String) (started : Nat) (status : String) :
    Always (serverWorld R st) i (Serving st role granted) (fun _ l => ∃ t', l = ⟨c, h, t'⟩ ∧ Recorded 1 t t')
      (recordUpstreamFailure requestId principal model started status) ⟨c, h, t⟩ := by
  refine Always.op ⟨hr.quiet, hr.granted, fun hd => by simp [ht hd]⟩ fun _ _ _ => ?_
  exact recordUsage_always hr ht _

theorem recordRequestLineageJoins_always (hr : Resting granted c h) (requestId : Nat) (corpus model : Option String)
    (source : String) : ∀ (lineageIds : List String) {t : Trace}, (t.decoded ≠ [] → t.usage.length ≤ 1) →
    Always (serverWorld R st) i (Serving st role granted) (fun _ l => ∃ t', l = ⟨c, h, t'⟩ ∧ Recorded 0 t t')
      (recordRequestLineageJoins requestId corpus model source lineageIds) ⟨c, h, t⟩
  | [], t, _ => ⟨t, rfl, .refl t⟩
  | lineageId :: lineageIds, t, ht => by
    refine Always.op ⟨hr.quiet, hr.granted, ht⟩ fun _ _ _ => ?_
    refine Always.recorded (insertLineage_always hr ht _) fun _ t₁ ht₁ => ?_
    have hle : t₁.decoded ≠ [] → t₁.usage.length ≤ 1 := fun hd =>
      le_trans ht₁.usage_le (ht (ht₁.decoded ▸ hd))
    refine (recordRequestLineageJoins_always hr requestId corpus model source lineageIds hle).mono
      (fun _ _ hΦ => hΦ) fun _ l hl => ?_
    obtain ⟨t₂, rfl, ht₂⟩ := hl
    exact ⟨t₂, rfl, ht₁.trans ht₂⟩

/-! ## Responses -/

def Response.Whole (response : Response) : Prop := ∀ generator, response.body ≠ .stream generator

theorem errorResponse_whole (status : StatusCode) (code message : String) :
    (errorResponse status code message).Whole := fun _ he => by cases he

theorem authErrorResponse_whole (message : String) : (authErrorResponse message).Whole := by
  unfold authErrorResponse
  split <;> exact errorResponse_whole _ _ _

theorem modelRouteErrorResponse_whole (err : ModelRouteError) : (modelRouteErrorResponse err).Whole := by
  cases err <;> exact errorResponse_whole _ _ _

theorem Response.Whole.withRequestId {response : Response} (hw : response.Whole) (requestId : Nat) :
    (withRequestId response requestId).Whole := hw

theorem Response.Whole.respond {response : Response} (hw : response.Whole) :
    respond response = .done (some response) := by
  unfold Llmctl.respond
  cases hb : response.body with
  | stream generator => exact absurd hb (hw generator)
  | error code message => rfl
  | json fields => rfl
  | bytes text => rfl

/-- The response is sent, and a streamed body polled, from here. -/
abbrev Responds (R : Type) [DecidableEq R] (st : ServerState) (i : Proc R) (role : Role) (granted : Seen → Prop)
    (response : Response) (l : Local) : Prop :=
  Always (serverWorld R st) i (Serving st role granted) Served (respond response) l

theorem responds_of_whole {response : Response} (hw : response.Whole) {l : Local} (hl : Served (some response) l) :
    Responds R st i role granted response l := by
  unfold Responds
  rw [hw.respond]
  exact hl

theorem returns_of_whole {response : Response} (hw : response.Whole) {l : Local} (hl : Served (some response) l) :
    Always (serverWorld R st) i (Serving st role granted) (Responds R st i role granted) (pure response) l :=
  responds_of_whole hw hl

/-- A request that is turned away holds nothing. -/
theorem rejected_always (hheld : c.held = {}) (ht : t.decoded = []) (requestId : Nat) (principal : Principal)
    (action resource outcome : String) {response : Response} (hw : response.Whole) (detail : Json) :
    Always (serverWorld R st) i (Serving st role granted) (fun r l => Responds R st i role granted r l ∧ r.Whole)
      (auditRejectResponse requestId principal action resource outcome response detail) ⟨c, {}, t⟩ := by
  have hr : Resting granted c {} := ⟨hheld, ⟨rfl, rfl, rfl, rfl⟩, fun hp => absurd rfl hp⟩
  refine Always.recorded (recordAudit_always hr (fun hd => absurd ht hd) _ _ _ _ _ _) fun _ t' ht' => ⟨?_, hw⟩
  exact responds_of_whole (hw.withRequestId requestId) ⟨rfl, fun hd => absurd (ht'.decoded.trans ht) hd⟩

end

end Llmctl
