import Llmctl.Server.NativeSound

/-!
# Streamed bodies and their usage row

Along a streamed body, what the guard still has to record and what is recorded add
up to one row. Whether they do after a drop is a matter of the stage it comes at
(`dropSafe`).
-/

namespace Llmctl

open Async

section
variable {R : Type} [DecidableEq R] {st : ServerState}

/-- The calls of a process to a storage that accepts its records. -/
def recordsKept (_ : Proc R) (o : ServerOp) (a : ServerSig.Ans o) : Bool := !refusesQuery o a

abbrev keptWorld (R : Type) [DecidableEq R] (st : ServerState) := (serverWorld R st).allow recordsKept

structure At (stage : Stage) (armed : Bool) (rows : Nat) (l : Local) : Prop where
  stage : l.trace.stage = stage
  armed : l.holding.guard.isSome = armed
  rows : l.trace.usage.length = rows

/-- What holds at a call of the body; `n` rows were there before the body. -/
def Streaming (n : Nat) (o : ServerOp) (l : Local) : Prop :=
  (∀ t, o ≠ .task t) ∧
  match l.trace.stage with
  | .unpolled => l.holding.guard = none ∧ l.trace.usage.length = n
  | .reading => (o.isAwait = true → l.holding.guard.isSome = true) ∧ l.trace.usage.length = n
  | .holding | .failed => l.holding.guard.isSome = true ∧ (l.trace.usage.length = n ∨ l.trace.usage.length = n + 1)
  | .ended => (o.isAwait = true → l.holding.guard = none) ∧
      (l.trace.usage.length = n ∨ l.trace.usage.length = n + 1)
  | .settled => l.holding.guard = none ∧ l.trace.usage.length = n + 1

/-- A drop here leaves one row in all. -/
def dropSafe (n : Nat) (l : Local) : Bool :=
  match l.trace.stage with
  | .unpolled => false
  | .reading | .settled => true
  | .holding | .failed => l.trace.usage.length == n
  | .ended => l.trace.usage.length == n + 1

/-! ## Records -/

/-- `Φ` allows a record, which lands the row after the first `n`, at this stage. -/
def Allows (Φ : ServerOp → Local → Prop) (stage : Stage) (armed : Bool) (n : Nat) : Prop :=
  ∀ o l k, At stage armed k l → k = n ∨ k = n + 1 → (∀ t, o ≠ .task t) → Φ o l

/-- Stages at which the body may record, with the guard's state there. -/
inductive Recording : Stage → Bool → Prop where
  | holding : Recording .holding true
  | failed : Recording .failed true
  | ended : Recording .ended false

variable {i : Proc R} {l : Local} {stage : Stage} {armed : Bool} {n k : Nat} {Φ : ServerOp → Local → Prop}

omit [DecidableEq R] in
theorem Recording.allows (hs : Recording stage armed) : Allows (Streaming n) stage armed n := by
  rintro o l k ⟨hstage, harmed, rfl⟩ hk ho
  refine ⟨ho, ?_⟩
  cases hs <;> simp only [hstage]
  · exact ⟨harmed, hk⟩
  · exact ⟨harmed, hk⟩
  · exact ⟨fun _ => by simpa using harmed, hk⟩

theorem elapsedMs_at (hΦ : Allows Φ stage armed n) (h : At stage armed k l) (hk : k = n ∨ k = n + 1) (started : Nat) :
    Always (keptWorld R st) i Φ (fun _ l => At stage armed k l) (elapsedMs started) l :=
  Always.op (hΦ _ _ _ h hk (by simp)) fun _ _ _ => ⟨h.stage, h.armed, h.rows⟩

theorem At.landed (h : At stage armed k l) (e : UsageEvent) (u : Unit) :
    At stage armed (k + 1) ((keptWorld R st).loc i (.store (.insertUsageEvent e)) (.ok u) l) := by
  refine ⟨h.stage, h.armed, ?_⟩
  rw [← h.rows]
  simp [World.allow, serverWorld, ServerOp.loc, ServerOp.trace]

theorem recordUsage_at (hΦ : Allows Φ stage armed n) (h : At stage armed n l) (input : UsageRecordInput) :
    Always (keptWorld R st) i Φ (fun _ l => At stage armed (n + 1) l) (recordUsage input) l := by
  refine Always.op (hΦ _ _ _ h (.inl rfl) (by simp)) fun now _ _ => ?_
  have h₁ : At stage armed n ((keptWorld R st).loc i .utcNow now l) := ⟨h.stage, h.armed, h.rows⟩
  refine Always.op (hΦ _ _ _ h₁ (.inl rfl) (by simp)) fun a _ hc => ?_
  cases a with
  | error err => simp [World.allow, recordsKept, refusesQuery] at hc
  | ok _ =>
    have h₂ : At stage armed n ((keptWorld R st).loc i (.store .acquireQuery) (.ok ()) _) := ⟨h₁.stage, h₁.armed, h₁.rows⟩
    refine Always.op (hΦ _ _ _ h₂ (.inl rfl) (by simp)) fun a _ hc => ?_
    cases a with
    | error err => simp [World.allow, recordsKept, refusesQuery] at hc
    | ok _ =>
      refine Always.op (hΦ _ _ _ (h₂.landed _ _) (.inr rfl) (by simp)) fun _ _ _ => ?_
      refine ⟨h₂.stage, h₂.armed, ?_⟩
      rw [← h₂.rows]
      simp [World.allow, serverWorld, ServerOp.loc, ServerOp.trace]

theorem recordAudit_at (hΦ : Allows Φ stage armed n) (h : At stage armed k l) (hk : k = n ∨ k = n + 1)
    (requestId : Option Nat) (principal : Principal) (action resource outcome : String) (detail : Json) :
    Always (keptWorld R st) i Φ (fun _ l => At stage armed k l)
      (recordAudit requestId principal action resource outcome detail) l := by
  refine Always.op (hΦ _ _ _ h hk (by simp)) fun now _ _ => ?_
  have h₁ : At stage armed k ((keptWorld R st).loc i .utcNow now l) := ⟨h.stage, h.armed, h.rows⟩
  refine Always.op (hΦ _ _ _ h₁ hk (by simp)) fun a _ hc => ?_
  cases a with
  | error err => simp [World.allow, recordsKept, refusesQuery] at hc
  | ok _ =>
    have h₂ : At stage armed k ((keptWorld R st).loc i (.store .acquireQuery) (.ok ()) _) := ⟨h₁.stage, h₁.armed, h₁.rows⟩
    refine Always.op (hΦ _ _ _ h₂ hk (by simp)) fun a _ hc => ?_
    cases a with
    | error err => simp [World.allow, recordsKept, refusesQuery] at hc
    | ok _ =>
      refine Always.op (hΦ _ _ _ ⟨h₂.stage, h₂.armed, h₂.rows⟩ hk (by simp)) fun _ _ _ => ?_
      exact ⟨h₂.stage, h₂.armed, h₂.rows⟩

/-! ## The ends of a stream -/

def Ended (n : Nat) (l : Local) : Prop := At .settled false (n + 1) l ∨ At .ended false (n + 1) l

omit [DecidableEq R] in
theorem Ended.streaming (h : Ended n l) {o : ServerOp} (ho : ∀ t, o ≠ .task t) : Streaming n o l := by
  obtain ⟨hstage, harmed, hrows⟩ | ⟨hstage, harmed, hrows⟩ := h
  · refine ⟨ho, ?_⟩
    simp only [hstage]
    exact ⟨by simpa using harmed, hrows⟩
  · refine ⟨ho, ?_⟩
    simp only [hstage]
    exact ⟨fun _ => by simpa using harmed, .inr hrows⟩

variable (ctx : UpstreamRequestContext) (status : StatusCode)

theorem streamFails_at (hs : Recording stage true) (h : At stage true n l) (total : Nat × Nat) (outcome : String)
    (more : Json) (item : String) :
    Always (keptWorld R st) i (Streaming n) (fun _ l => Ended n l) (streamFails ctx status total outcome more item) l := by
  have hsettles : stage.next (.body .disarm) () = .settled := by cases hs <;> rfl
  apply (elapsedMs_at hs.allows h (.inl rfl) ctx.started).seq
  intro latencyMs l h
  apply (recordUsage_at hs.allows h _).seq
  intro _ l h
  apply (recordAudit_at hs.allows h (.inr rfl) _ _ _ _ _ _).seq
  intro _ l h
  refine Always.op (hs.allows _ _ _ h (.inr rfl) (by simp)) fun _ _ _ => ?_
  have h' : At .settled false (n + 1) ((keptWorld R st).loc i (.body .disarm) () l) := by
    refine ⟨?_, rfl, h.rows⟩
    show l.trace.stage.next (.body .disarm) () = .settled
    rw [h.stage]
    exact hsettles
  exact Always.op (Ended.streaming (.inl h') (by simp)) fun _ _ _ => .inl ⟨h'.stage, rfl, h.rows⟩

theorem streamCompletes_at (h : At .ended true n l) (total : Nat × Nat) :
    Always (keptWorld R st) i (Streaming n) (fun _ l => Ended n l) (streamCompletes ctx status total) l := by
  have hstart : Streaming n (.body .disarm) l := by
    refine ⟨by simp, ?_⟩
    simp only [h.stage]
    exact ⟨fun ha => (by cases ha), .inl h.rows⟩
  refine Always.op hstart fun _ _ _ => ?_
  have h₁ : At .ended false n ((keptWorld R st).loc i (.body .disarm) () l) := by
    refine ⟨?_, rfl, h.rows⟩
    show l.trace.stage.next (.body .disarm) () = .ended
    rw [h.stage]
    rfl
  apply (elapsedMs_at Recording.ended.allows h₁ (.inl rfl) ctx.started).seq
  intro latencyMs l h
  apply (recordUsage_at Recording.ended.allows h _).seq
  intro _ l h
  exact (recordAudit_at Recording.ended.allows h (.inr rfl) _ _ _ _ _ _).mono (fun _ _ hΦ => hΦ) fun _ _ h => .inr h

theorem streamEnds_at {e : StreamEnd} (h : At e.stage true n l) (total : Nat × Nat) :
    Always (keptWorld R st) i (Streaming n) (fun _ l => Ended n l) (streamEnds ctx status total e) l := by
  cases e with
  | done => exact streamCompletes_at ctx status h total
  | failed isTimeout => exact streamFails_at ctx status .failed h total _ _ _
  | timedOut => exact streamFails_at ctx status .failed h total _ _ _

/-! ## The body -/

omit [DecidableEq R] in
theorem streaming_reading (h : At .reading true n l) {o : ServerOp} (ho : ∀ t, o ≠ .task t) :
    Streaming n o l := by
  refine ⟨ho, ?_⟩
  simp only [h.stage]
  exact ⟨fun _ => h.armed, h.rows⟩

theorem streamChunks_at : ∀ (chunks : Nat) {buffer : List Char} {total : Nat × Nat} {l : Local}, At .reading true n l →
    Always (keptWorld R st) i (Streaming n) (fun _ l => Ended n l) (streamChunks st ctx status chunks buffer total) l
  | 0, _, total, l, h => by
    refine Always.op (streaming_reading h (by simp)) fun e _ _ => ?_
    have h₁ : At e.stage true n ((keptWorld R st).loc i (.upstream .lastChunk) e l) := ⟨rfl, h.armed, h.rows⟩
    exact streamEnds_at ctx status h₁ total
  | chunks + 1, buffer, total, l, h => by
    refine Always.op (streaming_reading h (by simp)) fun chunk _ _ => ?_
    cases chunk with
    | ended e =>
      have h₁ : At e.stage true n ((keptWorld R st).loc i (.upstream .nextChunk) (.ended e) l) := ⟨rfl, h.armed, h.rows⟩
      exact streamEnds_at ctx status h₁ total
    | bytes text =>
      have h₁ : At .holding true n ((keptWorld R st).loc i (.upstream .nextChunk) (.bytes text) l) :=
        ⟨rfl, h.armed, h.rows⟩
      dsimp only
      cases ssePush st.usageTokens buffer text with
      | error reason => exact streamFails_at ctx status .holding h₁ total _ _ _
      | ok pushed =>
        refine Always.op (Recording.holding.allows _ _ _ h₁ (.inl rfl) (by simp)) fun _ _ _ => ?_
        have h₂ : ∀ (u : Unit) (input output : Nat), At .reading true n ((keptWorld R st).loc i
            (.body (.updateCounts input output)) u ((keptWorld R st).loc i (.upstream .nextChunk) (.bytes text) l)) := by
          refine fun u input output => ⟨rfl, ?_, h.rows⟩
          have := h.armed
          simpa [World.allow, serverWorld, ServerOp.loc, ServerOp.holding, BodyOp.guard, UpstreamOp.upstream] using this
        refine Always.op (streaming_reading (h₂ _ _ _) (by simp)) fun _ _ _ => ?_
        exact streamChunks_at chunks ⟨rfl, (h₂ () _ _).armed, h.rows⟩

/-- From its first poll, whatever comes of the upstream, the body records one row. -/
theorem streamBody_at (h : At .reading false n l) (chunks : Nat) :
    Always (keptWorld R st) i (Streaming n) (fun _ l => Ended n l) (streamBody st ctx status chunks) l := by
  have hstart : ∀ data, Streaming n (.body (.arm data)) l := by
    refine fun data => ⟨by simp, ?_⟩
    simp only [h.stage]
    exact ⟨fun ha => (by cases ha), h.rows⟩
  have harm : ∀ data u, At .reading true n ((keptWorld R st).loc i (.body (.arm data)) u l) :=
    fun _ _ => ⟨h.stage, rfl, h.rows⟩
  refine Always.op (hstart _) fun _ _ _ => ?_
  apply (streamChunks_at ctx status chunks (harm _ _)).seq
  intro _ l h
  refine Always.op (h.streaming (by simp)) fun _ _ _ => ?_
  have h' : Ended n ((keptWorld R st).loc i (.upstream .close) () l) :=
    h.imp (fun h => ⟨h.stage, h.armed, h.rows⟩) fun h => ⟨h.stage, h.armed, h.rows⟩
  exact Always.op (h'.streaming (by simp)) fun _ _ _ =>
    h'.imp (fun h => ⟨h.stage, h.armed, h.rows⟩) fun h => ⟨h.stage, h.armed, h.rows⟩

/-- What the handler does with a successful answer to a request for a stream. -/
def streamAnswer (st : ServerState) (answer : UpstreamResponse) (ctx : UpstreamRequestContext) (guarded : Bool) :
    ServerProg (Option Response) := do
  let response ← do
    let response ← streamUpstream st answer ctx
    leaveWorker guarded
    pure response
  respond response

theorem streamAnswer_at {answer : UpstreamResponse} (hsuccess : answer.status.isSuccess = true) (guarded : Bool)
    (h : At .unpolled false n l) :
    Always (keptWorld R st) i (Streaming n) (fun _ l => Ended n l) (streamAnswer st answer ctx guarded) l := by
  have hunpolled : ∀ {l}, At .unpolled false n l → ∀ {o : ServerOp}, (∀ t, o ≠ .task t) → Streaming n o l := by
    intro l h o ho
    refine ⟨ho, ?_⟩
    simp only [h.stage]
    exact ⟨by simpa using h.armed, h.rows⟩
  have hbody : ∀ {l}, At .unpolled false n l → ∀ response : Option Response,
      Always (keptWorld R st) i (Streaming n) (fun _ l => Ended n l)
        (do op (.body .firstPoll); streamBody st ctx answer.status answer.chunks; pure response) l := by
    intro l h response
    have hpoll : ∀ u, At .reading false n ((keptWorld R st).loc i (.body .firstPoll) u l) := fun _ => ⟨rfl, h.armed, h.rows⟩
    refine Always.op (hunpolled h (by simp)) fun _ _ _ => ?_
    exact (streamBody_at ctx answer.status (hpoll _) answer.chunks).bind_pure _
  unfold streamAnswer streamUpstream
  rw [if_pos hsuccess]
  cases guarded with
  | false => exact hbody h _
  | true =>
    have hleft : ∀ u, At .unpolled false n ((keptWorld R st).loc i (.gate .decrement) u l) :=
      fun _ => ⟨h.stage, h.armed, h.rows⟩
    exact Always.op (hunpolled h (by simp)) fun _ _ _ => hbody (hleft _) _

/-! ## The guard's task -/

/-- At most one row after the first `m`, and no other job. -/
def OneRow (m : Nat) (o : ServerOp) (l : Local) : Prop :=
  (∀ t, o ≠ .task t) ∧ (l.trace.usage.length = m ∨ l.trace.usage.length = m + 1)

theorem recordTerminal_at {m : Nat} (hrows : l.trace.usage.length = m) (data : StreamDisconnectData) (status : String) :
    Always (keptWorld R st) i (OneRow m) (fun _ l => l.trace.usage.length = m + 1) (recordTerminal data status) l := by
  have hΦ : Allows (OneRow m) l.trace.stage l.holding.guard.isSome m := by
    rintro o l k h (rfl | rfl) ho
    · exact ⟨ho, .inl h.rows⟩
    · exact ⟨ho, .inr h.rows⟩
  have h : At l.trace.stage l.holding.guard.isSome m l := ⟨rfl, rfl, hrows⟩
  apply (elapsedMs_at hΦ h (.inl rfl) data.started).seq
  intro latencyMs l h
  apply (recordUsage_at hΦ h _).seq
  intro _ l h
  exact (recordAudit_at hΦ h (.inr rfl) _ _ _ _ _ _).mono (fun _ _ hΦ => hΦ) fun _ _ h => h.rows

/-! ## Runs -/

/-- Where the row of `r`'s stream is: still to come from the body, with the guard's
task that waits or records, or on record. -/
inductive StreamRun (st : ServerState) (r : R) (n m : Nat) (c : ServerConf R) : Prop where
  | going {p : ServerProg (Option Response)} (hp : c.prog (.request r) = some p)
      (hall : Always (keptWorld R st) (.request r) (Streaming n) (fun _ l => Ended n l) p (c.loc (.request r)))
      (hjob : c.sh.jobs r = none) (htask : c.prog (.task r) = some detachedTask)
      (hrows : (c.loc (.task r)).trace.usage.length = m)
  | spawned {d : StreamDisconnectData} (hp : c.prog (.request r) = none)
      (hbody : (c.loc (.request r)).trace.usage.length = n) (hjob : c.sh.jobs r = some (.disconnect d))
      (htask : c.prog (.task r) = some detachedTask) (hrows : (c.loc (.task r)).trace.usage.length = m)
  | recording {p : ServerProg (Option Response)} (hp : c.prog (.request r) = none)
      (hbody : (c.loc (.request r)).trace.usage.length = n) (hjob : c.sh.jobs r = none)
      (htask : c.prog (.task r) = some p)
      (hall : Always (keptWorld R st) (.task r) (OneRow m) (fun _ l => l.trace.usage.length = m + 1) p (c.loc (.task r)))
  | landed (hp : c.prog (.request r) = none) (hbody : (c.loc (.request r)).trace.usage.length = n + 1)
      (hjob : c.sh.jobs r = none) (htask : c.prog (.task r) = some detachedTask)
      (hrows : (c.loc (.task r)).trace.usage.length = m)

/-- A step at which the storage takes the records of `r`, and `r` is dropped only
where a drop is safe. -/
def StreamKept (r : R) (n : Nat) (c : ServerConf R) : Label ServerSig (Proc R) (ServerEvent R) → Prop
  | .answer i o a => i.owner = r → refusesQuery o a = false
  | .drop i => i = .request r → dropSafe n (c.loc i) = true
  | .env _ => True

variable {r : R} {m : Nat} {c c' : ServerConf R} {g : Server R}

theorem StreamRun.congr (h : StreamRun st r n m c) (hp : c'.prog (.request r) = c.prog (.request r))
    (hl : c'.loc (.request r) = c.loc (.request r)) (hp' : c'.prog (.task r) = c.prog (.task r))
    (hl' : c'.loc (.task r) = c.loc (.task r)) (hjobs : c'.sh.jobs r = c.sh.jobs r) : StreamRun st r n m c' := by
  cases h with
  | going hprog hall hjob htask hrows =>
    exact .going (hp.trans hprog) (hl ▸ hall) (hjobs.trans hjob) (hp'.trans htask) (hl' ▸ hrows)
  | spawned hprog hbody hjob htask hrows =>
    exact .spawned (hp.trans hprog) (hl ▸ hbody) (hjobs.trans hjob) (hp'.trans htask) (hl' ▸ hrows)
  | recording hprog hbody hjob htask hall =>
    exact .recording (hp.trans hprog) (hl ▸ hbody) (hjobs.trans hjob) (hp'.trans htask) (hl' ▸ hall)
  | landed hprog hbody hjob htask hrows =>
    exact .landed (hp.trans hprog) (hl ▸ hbody) (hjobs.trans hjob) (hp'.trans htask) (hl' ▸ hrows)

theorem jobs_of_owner_ne (hi : i.owner ≠ r) {o : ServerOp} {a : ServerSig.Ans o} :
    ((serverWorld R st).sh i o a l g).jobs r = g.jobs r := by
  cases o with
  | task o =>
    cases i with
    | request r' =>
      have hne : r ≠ r' := Ne.symm hi
      cases o with
      | spawn job => exact Function.update_of_ne hne ..
      | _ => rfl
    | task r' =>
      have hne : r ≠ r' := Ne.symm hi
      cases o with
      | start => exact Function.update_of_ne hne ..
      | _ => rfl
  | _ => rfl

theorem jobs_request {o : ServerOp} {a : ServerSig.Ans o} (ho : ∀ t, o ≠ .task t) :
    ((serverWorld R st).sh (.request r) o a l g).jobs r = g.jobs r := by
  cases o with
  | task o => exact absurd rfl (ho o)
  | _ => rfl

theorem jobs_task (hjob : g.jobs r = none) {o : ServerOp} {a : ServerSig.Ans o} :
    ((serverWorld R st).sh (.task r) o a l g).jobs r = none := by
  cases o with
  | task o =>
    cases o with
    | start => exact Function.update_self ..
    | _ => exact hjob
  | _ => exact hjob

omit [DecidableEq R] in
/-- What a safe drop leaves: a guard to record the row, or the row. -/
theorem drop_streaming {o : ServerOp} (h : Streaming n o l) (ha : o.isAwait = true) (hsafe : dropSafe n l = true) :
    (∃ data, l.holding.guard = some data ∧ l.trace.usage.length = n) ∨
      l.holding.guard = none ∧ l.trace.usage.length = n + 1 := by
  obtain ⟨_, h⟩ := h
  unfold dropSafe at hsafe
  split at hsafe
  · cases hsafe
  · rename_i hs
    rw [hs] at h
    obtain ⟨data, hdata⟩ := Option.isSome_iff_exists.mp (h.1 ha)
    exact .inl ⟨data, hdata, h.2⟩
  · rename_i hs
    rw [hs] at h
    exact .inr h
  · rename_i hs
    rw [hs] at h
    obtain ⟨data, hdata⟩ := Option.isSome_iff_exists.mp h.1
    exact .inl ⟨data, hdata, by simpa using hsafe⟩
  · rename_i hs
    rw [hs] at h
    obtain ⟨data, hdata⟩ := Option.isSome_iff_exists.mp h.1
    exact .inl ⟨data, hdata, by simpa using hsafe⟩
  · rename_i hs
    rw [hs] at h
    exact .inr ⟨h.1 ha, by simpa using hsafe⟩

def runJob : Job → ServerProg (Option Response)
  | .decode context request => streamTask context request >>= fun _ => pure none
  | .disconnect data => recordTerminal data streamDisconnectStatus >>= fun _ => pure none

theorem detachedTask_eq : detachedTask = .call (.task .start) runJob := by
  unfold detachedTask
  rw [Prog.op_bind]
  congr

theorem start_of_pending {o : ServerOp} {k : ServerSig.Ans o → ServerProg (Option Response)} {a : ServerSig.Ans o}
    (htask : c.prog (.task r) = some detachedTask) (hp : c.prog (.task r) = some (.call o k))
    (hc : (serverWorld R st).can (.task r) o a (c.loc (.task r)) c.sh = true) :
    ∃ job, c.sh.jobs r = some job ∧ k a = runJob job := by
  rw [detachedTask_eq, hp] at htask
  cases htask
  exact ⟨a, by simpa [serverWorld, ServerOp.can, Server.job] using hc, rfl⟩

theorem streamRun_answer (h : StreamRun st r n m c) {o : ServerOp} {k : ServerSig.Ans o → ServerProg (Option Response)}
    {a : ServerSig.Ans o} (hp : c.prog i = some (.call o k))
    (hc : (serverWorld R st).can i o a (c.loc i) c.sh = true) (hok : i.owner = r → refusesQuery o a = false) :
    StreamRun st r n m
      { prog := Function.update c.prog i (some (k a))
        loc := Function.update c.loc i ((serverWorld R st).loc i o a (c.loc i))
        sh := (serverWorld R st).sh i o a (c.loc i) c.sh } := by
  by_cases hi : i.owner = r
  · have hkept : (keptWorld R st).can i o a (c.loc i) c.sh = true := by
      simp [World.allow, recordsKept, hc, hok hi]
    cases i with
    | request r' =>
      obtain rfl : r' = r := hi
      have hne : Proc.task r' ≠ Proc.request r' := by simp
      cases h with
      | going hprog hall hjob htask hrows =>
        cases hprog.symm.trans hp
        refine .going (Function.update_self ..) ?_ ((jobs_request hall.1.1).trans hjob) ?_ ?_
        · simp only [Function.update_self]
          exact hall.2 a _ hkept
        · simp only [Function.update_of_ne hne]
          exact htask
        · simp only [Function.update_of_ne hne]
          exact hrows
      | spawned hprog => cases hprog.symm.trans hp
      | recording hprog => cases hprog.symm.trans hp
      | landed hprog => cases hprog.symm.trans hp
    | task r' =>
      obtain rfl : r' = r := hi
      have hne : Proc.request r' ≠ Proc.task r' := by simp
      cases h with
      | going hprog hall hjob htask hrows =>
        obtain ⟨job, hjob', _⟩ := start_of_pending htask hp hc
        cases hjob.symm.trans hjob'
      | landed hprog hbody hjob htask hrows =>
        obtain ⟨job, hjob', _⟩ := start_of_pending htask hp hc
        cases hjob.symm.trans hjob'
      | @spawned d hprog hbody hjob htask hrows =>
        obtain ⟨job, hjob', hk⟩ := start_of_pending htask hp hc
        cases hjob.symm.trans hjob'
        rw [detachedTask_eq, hp] at htask
        cases htask
        refine .recording (p := runJob (.disconnect d)) ?_ ?_ (Function.update_self ..) ?_ ?_
        · simp only [Function.update_of_ne hne]
          exact hprog
        · simp only [Function.update_of_ne hne]
          exact hbody
        · simp only [Function.update_self, hk]
        · simp only [Function.update_self]
          have hstarted : ((keptWorld R st).loc (.task r') (.task .start) a (c.loc (.task r'))).trace.usage.length = m :=
            hrows
          exact (recordTerminal_at hstarted d streamDisconnectStatus).bind_pure none
      | recording hprog hbody hjob htask hall =>
        cases htask.symm.trans hp
        refine .recording ?_ ?_ (jobs_task hjob) (Function.update_self ..) ?_
        · simp only [Function.update_of_ne hne]
          exact hprog
        · simp only [Function.update_of_ne hne]
          exact hbody
        · simp only [Function.update_self]
          exact hall.2 a _ hkept
  · have hr : Proc.request r ≠ i := fun he => hi (he ▸ rfl)
    have ht : Proc.task r ≠ i := fun he => hi (he ▸ rfl)
    exact h.congr (Function.update_of_ne hr ..) (Function.update_of_ne hr ..) (Function.update_of_ne ht ..)
      (Function.update_of_ne ht ..) (jobs_of_owner_ne hi)

theorem jobs_drop_guarded {o : ServerOp} {data : StreamDisconnectData} (h : l.holding.guard = some data) :
    ((serverWorld R st).dropSh (.request r) o l g).jobs = Function.update g.jobs r (some (.disconnect data)) := by
  change (Server.drop _ _ _ _).jobs = _
  simp only [Server.drop, h]
  rfl

theorem jobs_drop_unguarded {o : ServerOp} (h : l.holding.guard = none) :
    ((serverWorld R st).dropSh (.request r) o l g).jobs = g.jobs := by
  change (Server.drop _ _ _ _).jobs = _
  simp only [Server.drop, h]

theorem jobs_drop_of_ne {o : ServerOp} (hi : i ≠ .request r) (hd : (serverWorld R st).canDrop i o = true) :
    ((serverWorld R st).dropSh i o l g).jobs r = g.jobs r := by
  cases i with
  | task r' => cases hd
  | request r' =>
    have hne : r ≠ r' := fun he => hi (he ▸ rfl)
    cases hguard : l.holding.guard with
    | none => rw [jobs_drop_unguarded hguard]
    | some data =>
      rw [jobs_drop_guarded hguard]
      exact Function.update_of_ne hne ..

theorem streamRun_drop (h : StreamRun st r n m c) {o : ServerOp} {k : ServerSig.Ans o → ServerProg (Option Response)}
    (hp : c.prog i = some (.call o k)) (hd : (serverWorld R st).canDrop i o = true)
    (hok : i = .request r → dropSafe n (c.loc i) = true) :
    StreamRun st r n m
      { prog := Function.update c.prog i none
        loc := Function.update c.loc i ((serverWorld R st).dropLoc i o (c.loc i))
        sh := (serverWorld R st).dropSh i o (c.loc i) c.sh } := by
  by_cases hi : i = .request r
  · subst hi
    have hne : Proc.task r ≠ Proc.request r := by simp
    cases h with
    | going hprog hall hjob htask hrows =>
      cases hprog.symm.trans hp
      have hrows' : (Function.update c.loc (.request r) ((serverWorld R st).dropLoc (.request r) o (c.loc (.request r)))
          (.task r)).trace.usage.length = m := by
        rw [Function.update_of_ne hne]
        exact hrows
      obtain ⟨data, hguard, hbody⟩ | ⟨hguard, hbody⟩ := drop_streaming hall.1 hd (hok rfl)
      · refine .spawned (d := data) (Function.update_self ..) ?_ ?_ ?_ hrows'
        · simp only [Function.update_self]
          exact hbody
        rotate_left
        · simp only [Function.update_of_ne hne]
          exact htask
        · show ((serverWorld R st).dropSh (.request r) o (c.loc (.request r)) c.sh).jobs r = _
          rw [jobs_drop_guarded hguard]
          exact Function.update_self ..
      · refine .landed (Function.update_self ..) ?_ ?_ ?_ hrows'
        · simp only [Function.update_self]
          exact hbody
        rotate_left
        · simp only [Function.update_of_ne hne]
          exact htask
        · show ((serverWorld R st).dropSh (.request r) o (c.loc (.request r)) c.sh).jobs r = _
          rw [jobs_drop_unguarded hguard]
          exact hjob
    | spawned hprog => cases hprog.symm.trans hp
    | recording hprog => cases hprog.symm.trans hp
    | landed hprog => cases hprog.symm.trans hp
  · have ht : Proc.task r ≠ i := by
      rintro rfl
      cases hd
    exact h.congr (Function.update_of_ne (Ne.symm hi) ..) (Function.update_of_ne (Ne.symm hi) ..)
      (Function.update_of_ne ht ..) (Function.update_of_ne ht ..) (jobs_drop_of_ne hi hd)

theorem streamRun_step (h : StreamRun st r n m c) {step : Label ServerSig (Proc R) (ServerEvent R)}
    (hok : StreamKept r n c step) (hs : Step (serverWorld R st) c step c') : StreamRun st r n m c' := by
  cases hs with
  | answer hp hc => exact streamRun_answer h hp hc hok
  | drop hp hd => exact streamRun_drop h hp hd hok
  | @env e he =>
    refine h.congr rfl rfl rfl rfl ?_
    show (e.apply c.sh).jobs r = c.sh.jobs r
    rw [e.apply_eq]

/-! ## The rows of a streamed answer -/

def ServerConf.rows (c : ServerConf R) (r : R) : Nat :=
  (c.loc (.request r)).trace.usage.length + (c.loc (.task r)).trace.usage.length

/-- `r` is over, and so is its detached task if it has spawned one. -/
def ServerConf.closed (c : ServerConf R) (r : R) : Bool :=
  c.over (.request r) && (c.sh.jobs r).isNone &&
    match c.pending (.task r) with
    | none | some (.task .start) => true
    | _ => false

/-- The handler of `r` has a successful answer in its hands and makes a stream of it. -/
structure StreamStart (st : ServerState) (r : R) (answer : UpstreamResponse) (ctx : UpstreamRequestContext)
    (guarded : Bool) (c : ServerConf R) : Prop where
  success : answer.status.isSuccess = true
  prog : c.prog (.request r) = some (streamAnswer st answer ctx guarded)
  stage : (c.loc (.request r)).trace.stage = .unpolled
  guard : (c.loc (.request r)).holding.guard = none
  task : c.prog (.task r) = some detachedTask
  job : c.sh.jobs r = none

theorem StreamRun.rows_le (h : StreamRun st r n m c) : c.rows r ≤ n + m + 1 := by
  unfold ServerConf.rows
  cases h with
  | @going p hprog hall hjob htask hrows =>
    suffices hle : (c.loc (.request r)).trace.usage.length ≤ n + 1 by omega
    cases p with
    | done a => exact (hall.elim At.rows At.rows).le
    | call o k =>
      obtain ⟨⟨_, hst⟩, _⟩ := hall
      split at hst <;> omega
  | spawned hprog hbody hjob htask hrows => omega
  | @recording p hprog hbody hjob htask hall =>
    suffices hle : (c.loc (.task r)).trace.usage.length ≤ m + 1 by omega
    cases p with
    | done a => exact (show _ = m + 1 from hall).le
    | call o k => obtain ⟨⟨_, hrow | hrow⟩, _⟩ := hall <;> omega
  | landed hprog hbody hjob htask hrows => omega

theorem StreamRun.rows_eq (h : StreamRun st r n m c) (hclosed : c.closed r = true) : c.rows r = n + m + 1 := by
  unfold ServerConf.closed at hclosed
  simp only [Bool.and_eq_true] at hclosed
  obtain ⟨⟨hover, hnone⟩, htaskover⟩ := hclosed
  unfold ServerConf.rows
  cases h with
  | @going p hprog hall hjob htask hrows =>
    cases p with
    | done a =>
      have : (c.loc (.request r)).trace.usage.length = n + 1 := hall.elim At.rows At.rows
      omega
    | call o k => simp [Conf.over, Conf.pending, hprog] at hover
  | spawned hprog hbody hjob htask hrows => simp [hjob] at hnone
  | @recording p hprog hbody hjob htask hall =>
    cases p with
    | done a =>
      have : (c.loc (.task r)).trace.usage.length = m + 1 := hall
      omega
    | call o k =>
      simp only [Conf.pending, htask] at htaskover
      split at htaskover
      · rename_i ho
        cases ho
      · rename_i ho
        cases ho
        exact absurd rfl (hall.1.1 .start)
      · cases htaskover
  | landed hprog hbody hjob htask hrows => omega

theorem StreamStart.streamRun {answer : UpstreamResponse} {ctx : UpstreamRequestContext} {guarded : Bool}
    (h : StreamStart st r answer ctx guarded c) :
    StreamRun st r (c.loc (.request r)).trace.usage.length (c.loc (.task r)).trace.usage.length c := by
  have hstart : At .unpolled false (c.loc (.request r)).trace.usage.length (c.loc (.request r)) :=
    ⟨h.stage, by simp [h.guard], rfl⟩
  exact .going h.prog (streamAnswer_at ctx h.success guarded hstart) h.job h.task rfl

/-- A stream whose drops all come at a safe stage has one usage row once it is closed,
and never more. -/
theorem stream_accounted (st : ServerState) (r : R) (answer : UpstreamResponse) (ctx : UpstreamRequestContext)
    (guarded : Bool) {c₀ c : ServerConf R} (h₀ : StreamStart st r answer ctx guarded c₀)
    (hr : Reach (serverWorld R st) (StreamKept r (c₀.loc (.request r)).trace.usage.length) c₀ c) :
    c.rows r ≤ c₀.rows r + 1 ∧ (c.closed r = true → c.rows r = c₀.rows r + 1) := by
  have hrun := hr.invariant h₀.streamRun fun _ _ _ h hok hs => streamRun_step h hok hs
  exact ⟨hrun.rows_le, hrun.rows_eq⟩

instance (r : R) (n : Nat) (c : ServerConf R) :
    (l : Label ServerSig (Proc R) (ServerEvent R)) → Decidable (StreamKept r n c l)
  | .answer i o a => inferInstanceAs (Decidable (i.owner = r → refusesQuery o a = false))
  | .drop i => inferInstanceAs (Decidable (i = .request r → dropSafe n (c.loc i) = true))
  | .env _ => .isTrue trivial

/-- The client goes away before the body is polled: no guard was there to be dropped. -/
theorem unpolled_unrecorded : ∃ c : ServerConf Unit, Reach (serverWorld Unit oneModelNode) (fun _ _ => True)
    (serverStart oneModelNode {} fun _ => chatInput 7 "stream") c ∧
    (c.loc (.request ())).trace.sent.length = 1 ∧ c.closed () = true ∧ c.rows () = 0 := by
  refine Conf.exists_reach ((Proc.request ()).turns oneModelNode { sent := .response ⟨200, none, 2⟩ } 17 ++
    [.drop (.request ())]) ?_
  decide +kernel

def streamingQwen : ServerConf Unit where
  prog
    | .request _ => some (streamAnswer oneModelNode ⟨200, none, 2⟩
        ⟨7, .anonymous, "qwen", "qwen", none, ⟨0, "null", 0⟩, 0, []⟩ false)
    | .task _ => some detachedTask
  loc
    | .request _ => { holding := { permit := some [], upstream := some ⟨"qwen", 200⟩ } }
    | .task _ => {}
  sh := restingServer Unit oneModelNode {}

theorem stream_accounted_dropped : ∃ c : ServerConf Unit, Reach (serverWorld Unit oneModelNode) (StreamKept () 0)
    streamingQwen c ∧ c.prog (.request ()) = none ∧ c.closed () = true ∧ c.rows () = 1 := by
  have hrun : ∃ c : ServerConf Unit, Reach (serverWorld Unit oneModelNode) (StreamKept () 0) streamingQwen c ∧
      (c.prog (.request ())).isNone = true ∧ c.closed () = true := by
    refine Conf.exists_reach ((Proc.request ()).turns oneModelNode {} 2 ++ [.drop (.request ())] ++
      (Proc.task ()).turns oneModelNode {} 10) ?_
    decide +kernel
  obtain ⟨c, hr, hdropped, hclosed⟩ := hrun
  have hstart : StreamStart oneModelNode () ⟨200, none, 2⟩ ⟨7, .anonymous, "qwen", "qwen", none, ⟨0, "null", 0⟩, 0, []⟩
      false streamingQwen := ⟨rfl, rfl, rfl, rfl, rfl, rfl⟩
  exact ⟨c, hr, Option.isNone_iff_eq_none.mp hdropped, hclosed,
    (stream_accounted oneModelNode () ⟨200, none, 2⟩ _ false hstart hr).2 hclosed⟩

end

end Llmctl
