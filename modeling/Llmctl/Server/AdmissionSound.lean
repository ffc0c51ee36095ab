import Llmctl.Server.NativeSound

/-!
# Admission before model work

Every permit in use goes back to an allowed decision in the tables. So does every
call of an upstream or an engine, embeddings apart (`work_admitted`).
-/

namespace Llmctl

open Async

section
variable {R : Type} [DecidableEq R] {st : ServerState} {inputs : R → Input}

/-- `r` is a chat request, and its allowed decision is in the tables. -/
def Decided (inputs : R → Input) (t : Tables) (r : R) : Prop :=
  ∃ request row, inputs r = .chat request ∧ row ∈ t.decisions ∧ row.allowed = true ∧ row.requestId = some request.requestId

/-- Inserted decisions are in the tables, and the permits that tasks have or get come
from a decided request. -/
structure Grounded (inputs : R → Input) (loc : Proc R → Local) (g : Server R) : Prop where
  inserted : ∀ i row, (loc i).call.seen.inserted = some row → row ∈ g.store.tables.decisions
  jobs : ∀ r context request, g.jobs r = some (.decode context request) → Decided inputs g.store.tables r
  tasks : ∀ r, (loc (.task r)).holding.permit ≠ none → Decided inputs g.store.tables r

omit [DecidableEq R] in
theorem Decided.mono {t t' : Tables} {r : R} (h : Decided inputs t r) (hsub : t.decisions ⊆ t'.decisions) :
    Decided inputs t' r := by
  obtain ⟨request, row, hin, hrow, hallowed, hid⟩ := h
  exact ⟨request, row, hin, hsub hrow, hallowed, hid⟩

omit [DecidableEq R] in
/-- A request that holds a permit has its decision on record. -/
theorem Grounded.request {loc : Proc R → Local} {g : Server R} (h : Grounded inputs loc g) {r : R} {o : ServerOp}
    (hserving : (Proc.request r).serving st inputs o (loc (.request r)))
    (hp : (loc (.request r)).holding.permit ≠ none) : Decided inputs g.store.tables r := by
  have hadmitted : (inputs r).admitted (loc (.request r)).call.seen := hserving.2.1 hp
  cases hin : inputs r with
  | chat request =>
    rw [hin] at hadmitted
    obtain ⟨row, hrow, hallowed, hid⟩ := hadmitted
    exact ⟨request, row, hin, h.inserted _ row hrow, hallowed, hid⟩
  | _ =>
    rw [hin] at hadmitted
    exact hadmitted.elim

omit [DecidableEq R] in
theorem Grounded.decided {loc : Proc R → Local} {g : Server R} (h : Grounded inputs loc g) {i : Proc R} {o : ServerOp}
    (hserving : i.serving st inputs o (loc i)) (hp : (loc i).holding.permit ≠ none) :
    Decided inputs g.store.tables i.owner := by
  cases i with
  | request r => exact h.request hserving hp
  | task r => exact h.tasks r hp

section
variable {loc : Proc R → Local} {g g' : Server R} {i : Proc R} {l : Local}

theorem Grounded.update (h : Grounded inputs loc g) (hsub : g.store.tables.decisions ⊆ g'.store.tables.decisions)
    (hinserted : ∀ row, l.call.seen.inserted = some row → row ∈ g'.store.tables.decisions)
    (hjobs : ∀ r context request, g'.jobs r = some (.decode context request) → Decided inputs g'.store.tables r)
    (htask : ∀ r, i = .task r → l.holding.permit ≠ none → Decided inputs g'.store.tables r) :
    Grounded inputs (Function.update loc i l) g' where
  inserted := (Function.forall_update_iff loc fun _ l => ∀ row, l.call.seen.inserted = some row →
    row ∈ g'.store.tables.decisions).mpr ⟨hinserted, fun j _ row hrow => hsub (h.inserted j row hrow)⟩
  jobs := hjobs
  tasks r hp := by
    by_cases hi : i = .task r
    · subst hi
      rw [Function.update_self] at hp
      exact htask r rfl hp
    · rw [Function.update_of_ne (Ne.symm hi)] at hp
      exact (h.tasks r hp).mono hsub

/-- A step that makes no decision, spawns nothing and takes no permit. -/
theorem Grounded.frame (h : Grounded inputs loc g) (htables : g'.store.tables.decisions = g.store.tables.decisions)
    (hcall : l.call.seen.inserted = (loc i).call.seen.inserted)
    (hjobs : ∀ r context request, g'.jobs r = some (.decode context request) → g.jobs r = some (.decode context request))
    (hpermit : l.holding.permit ≠ none → (loc i).holding.permit ≠ none) :
    Grounded inputs (Function.update loc i l) g' := by
  have hsub : g.store.tables.decisions ⊆ g'.store.tables.decisions := by
    rw [htables]
    exact List.Subset.refl _
  refine h.update hsub (fun row hrow => hsub (h.inserted i row (hcall ▸ hrow))) ?_ ?_
  · exact fun r context request hjob => (h.jobs r context request (hjobs r context request hjob)).mono hsub
  · rintro r rfl hp
    exact (h.tasks r (hpermit hp)).mono hsub

theorem grounded_store (h : Grounded inputs loc g) {o : StoreOp} {a : StoreSig.Ans o} :
    Grounded inputs (Function.update loc i ((serverWorld R st).loc i (.store o) a (loc i)))
      ((serverWorld R st).sh i (.store o) a (loc i) g) := by
  cases o with
  | insertQuotaDecision row =>
    cases a with
    | error err => exact h.frame rfl rfl (fun _ _ _ hjob => hjob) id
    | ok _ =>
      have hsub : g.store.tables.decisions ⊆ g.store.tables.decisions ++ [row] := List.subset_append_left _ _
      refine h.update hsub ?_ (fun r context request hjob => (h.jobs r context request hjob).mono hsub) ?_
      · rintro row' ⟨⟩
        exact List.mem_append_right _ (List.mem_singleton_self row)
      · rintro r rfl hp
        exact (h.tasks r hp).mono hsub
  | allowedQuotaDecisionCount principal b from_ to_ => cases a <;> exact h.frame rfl rfl (fun _ _ _ hjob => hjob) id
  | insertUsageEvent e => cases a <;> exact h.frame rfl rfl (fun _ _ _ hjob => hjob) id
  | insertAuditEvent e => cases a <;> exact h.frame rfl rfl (fun _ _ _ hjob => hjob) id
  | insertRequestLineageJoin record => cases a <;> exact h.frame rfl rfl (fun _ _ _ hjob => hjob) id
  | _ => exact h.frame rfl rfl (fun _ _ _ hjob => hjob) id

theorem grounded_permit (h : Grounded inputs loc g) {o : PermitOp} {a : ServerSig.Ans (.permit o)}
    (hserving : i.serving st inputs (.permit o) (loc i)) :
    Grounded inputs (Function.update loc i ((serverWorld R st).loc i (.permit o) a (loc i)))
      ((serverWorld R st).sh i (.permit o) a (loc i) g) := by
  cases o with
  | drop => exact h.frame rfl rfl (fun _ _ _ hjob => hjob) fun hp => absurd rfl hp
  | tryAcquireForAll scopes =>
    refine h.update (List.Subset.refl _) (h.inserted i) h.jobs ?_
    rintro r rfl _
    cases hserving.1.2.2

theorem grounded_task (h : Grounded inputs loc g) {o : TaskOp} {a : ServerSig.Ans (.task o)}
    (hserving : i.serving st inputs (.task o) (loc i)) (hc : (serverWorld R st).can i (.task o) a (loc i) g = true) :
    Grounded inputs (Function.update loc i ((serverWorld R st).loc i (.task o) a (loc i)))
      ((serverWorld R st).sh i (.task o) a (loc i) g) := by
  cases o with
  | spawn job =>
    cases job with
    | disconnect data => exact hserving.1.elim
    | decode context request =>
      cases i with
      | task r => cases hserving.1.2.2
      | request r =>
        have hdecided := h.request hserving (by rw [hserving.1.2.1]; exact Option.some_ne_none _)
        refine h.update (List.Subset.refl _) (h.inserted _) ?_ (fun _ he => by cases he)
        intro r' context' request' hjob
        by_cases hr : r' = r
        · exact hr ▸ hdecided
        · have hjob : Function.update g.jobs r (some (.decode context request)) r' = some (.decode context' request') := hjob
          rw [Function.update_of_ne hr] at hjob
          exact h.jobs r' context' request' hjob
  | start =>
    cases i with
    | request r => cases hc
    | task r =>
      have ha : g.jobs r = some a := by simpa [serverWorld, ServerOp.can, Server.job] using hc
      refine h.update (List.Subset.refl _) (h.inserted _) ?_ ?_
      · intro r' context request hjob
        have hjob : Function.update g.jobs r none r' = some (.decode context request) := hjob
        by_cases hr : r' = r
        · rw [hr, Function.update_self] at hjob
          cases hjob
        · rw [Function.update_of_ne hr] at hjob
          exact h.jobs r' context request hjob
      · rintro r' ⟨⟩ hp
        cases a with
        | decode context request => exact h.jobs r context request ha
        | disconnect data => exact h.tasks r hp
  | _ => exact h.frame rfl rfl (fun _ _ _ hjob => hjob) id

theorem grounded_answer (h : Grounded inputs loc g) {o : ServerOp} {a : ServerSig.Ans o}
    (hserving : i.serving st inputs o (loc i)) (hc : (serverWorld R st).can i o a (loc i) g = true) :
    Grounded inputs (Function.update loc i ((serverWorld R st).loc i o a (loc i)))
      ((serverWorld R st).sh i o a (loc i) g) := by
  cases o with
  | store o => exact grounded_store h
  | permit o => exact grounded_permit h hserving
  | task o => exact grounded_task h hserving hc
  | _ => exact h.frame rfl rfl (fun _ _ _ hjob => hjob) id

omit [DecidableEq R] in
theorem decode_of_jobs_drop [DecidableEq R] {h : Holding} {jobs : R → Option Job} {r : R} {context : NativeChatContext}
    {request : NativeChatRequest}
    (hjob : (match h.guard with | some data => TaskOp.jobs i (.spawn (.disconnect data)) jobs | none => jobs) r =
      some (.decode context request)) : jobs r = some (.decode context request) := by
  cases hguard : h.guard with
  | none =>
    rw [hguard] at hjob
    exact hjob
  | some data =>
    rw [hguard] at hjob
    cases i with
    | task r' => exact hjob
    | request r' =>
      have hjob : Function.update jobs r' (some (.disconnect data)) r = some (.decode context request) := hjob
      by_cases hr : r = r'
      · rw [hr, Function.update_self] at hjob
        cases hjob
      · rw [Function.update_of_ne hr] at hjob
        exact hjob

theorem grounded_drop (h : Grounded inputs loc g) (o : ServerOp) :
    Grounded inputs (Function.update loc i ((serverWorld R st).dropLoc i o (loc i)))
      ((serverWorld R st).dropSh i o (loc i) g) := by
  refine h.frame ?_ rfl ?_ fun hp => absurd rfl hp
  · cases o <;> rfl
  · exact fun r context request hjob => decode_of_jobs_drop hjob

end

theorem grounded_reach {ok : ServerConf R → Label ServerSig (Proc R) (ServerEvent R) → Prop} {workers : Workers}
    {c : ServerConf R} (hr : Reach (serverWorld R st) ok (serverStart st workers inputs) c) :
    Grounded inputs c.loc c.sh := by
  refine (serverStart_typed st workers inputs).pool ?_ ?_ ?_ ?_ hr
  · constructor
    · intro i row hrow
      cases hrow
    · intro r context request hjob
      cases hjob
    · exact fun r hp => absurd rfl hp
  · exact fun c i o a h hserving _ hc => grounded_answer h hserving hc
  · exact fun c i o h _ _ _ => grounded_drop h o
  · intro c e h _ _
    show Grounded inputs c.loc (e.apply c.sh)
    rw [e.apply_eq]
    exact ⟨h.inserted, h.jobs, h.tasks⟩

/-! ## Model work -/

/-- The calls of an upstream, from the request to the end of the answer. -/
def ServerOp.callsUpstream : ServerOp → Bool
  | .upstream (.send ..) | .upstream .readBody | .upstream .nextChunk | .upstream .lastChunk => true
  | _ => false

def ServerOp.callsEmbeddings : ServerOp → Bool
  | .sched (.embeddings ..) => true
  | _ => false

theorem permit_of_callsUpstream {role : Role} {o : ServerOp} {h : Holding} (hready : Ready st role o h)
    (ho : o.callsUpstream = true) : h.permit ≠ none := by
  cases o with
  | upstream o =>
    cases o with
    | send k url body apiKey => obtain ⟨⟨a, ha, _⟩, _⟩ := hready; exact ha.permit
    | readBody => exact hready.2
    | nextChunk => exact hready.2
    | lastChunk => exact hready.2
    | sleep millis => cases ho
    | close => cases ho
  | _ => cases ho

/-- A step that drops no future between the start of its decode and its usage row. -/
def DropSettled (c : ServerConf R) : Label ServerSig (Proc R) (ServerEvent R) → Prop
  | .drop i => Settled (c.loc i).trace
  | _ => True

omit [DecidableEq R] in
instance (c : ServerConf R) : (l : Label ServerSig (Proc R) (ServerEvent R)) → Decidable (DropSettled c l)
  | .drop i => inferInstanceAs (Decidable (Settled (c.loc i).trace))
  | .answer .. => .isTrue trivial
  | .env _ => .isTrue trivial

omit [DecidableEq R] in
theorem role_embeds (hembeds : ∀ r, (inputs r).embeds st = false) (i : Proc R) : (i.role st inputs).embeds = false := by
  cases i with
  | task r => rfl
  | request r =>
    show ((inputs r).role st).embeds = false
    cases hin : inputs r with
    | embeddings request =>
      have hnot := hembeds r
      rw [hin] at hnot
      exact hnot
    | chat request => simp only [Input.role]; split <;> rfl
    | _ => rfl

theorem serving_of_pending {ok : ServerConf R → Label ServerSig (Proc R) (ServerEvent R) → Prop} {workers : Workers}
    {c : ServerConf R} (hr : Reach (serverWorld R st) ok (serverStart st workers inputs) c) {i : Proc R} {o : ServerOp}
    (ho : c.pending i = some o) : i.serving st inputs o (c.loc i) := by
  unfold Conf.pending at ho
  split at ho
  · rename_i o' k hp
    cases ho
    exact ((serverStart_typed st workers inputs).reach hr i _ hp).1
  · cases ho

theorem pending_of_permit {ok : ServerConf R → Label ServerSig (Proc R) (ServerEvent R) → Prop} {workers : Workers}
    {c : ServerConf R} (hr : Reach (serverWorld R st) ok (serverStart st workers inputs) c) {i : Proc R}
    (hp : (c.loc i).holding.permit ≠ none) : ∃ o, c.pending i = some o := by
  obtain ⟨o, k, hprog⟩ := running_of_holding hr fun he => hp (by rw [he])
  exact ⟨o, by simp only [Conf.pending, hprog]⟩

/-- Where no request asks a loaded engine for embeddings, a call of an upstream or an
engine runs under the permits of a request whose allowed decision is on record. -/
theorem work_admitted (st : ServerState) (workers : Workers) (inputs : R → Input)
    (hembeds : ∀ r, (inputs r).embeds st = false) {c : ServerConf R}
    (hr : Reach (serverWorld R st) DropSettled (serverStart st workers inputs) c) :
    (∀ i o, c.pending i = some o → o.callsUpstream = true →
      (c.loc i).holding.permit ≠ none ∧ Decided inputs c.sh.store.tables i.owner) ∧
    (∀ i e request, c.pending i = some (.sched (.spawnBlocking e request)) →
      (c.loc i).holding.permit ≠ none ∧ (c.loc i).holding.slot = some e ∧ Decided inputs c.sh.store.tables i.owner) ∧
    (∀ i e, c.sh.decodes i = .running e →
      (c.loc i).holding.permit ≠ none ∧ (c.loc i).holding.slot = some e ∧ Decided inputs c.sh.store.tables i.owner) ∧
    ∀ i e request, c.pending i ≠ some (.sched (.embeddings e request)) := by
  have hground := grounded_reach hr
  refine ⟨fun i o ho hcalls => ?_, fun i e request ho => ?_, fun i e hd => ?_, fun i e request ho => ?_⟩
  · have hserving := serving_of_pending hr ho
    have hp := permit_of_callsUpstream hserving.1 hcalls
    exact ⟨hp, hground.decided hserving hp⟩
  · have hserving := serving_of_pending hr ho
    exact ⟨hserving.1.permit, hserving.1.slot, hground.decided hserving hserving.1.permit⟩
  · have hsustains := decodes_reach (fun _ _ hok => hok) hr i e (by rw [hd]; rfl)
    obtain ⟨o, ho⟩ := pending_of_permit hr hsustains.permit
    exact ⟨hsustains.permit, hsustains.slot, hground.decided (serving_of_pending hr ho) hsustains.permit⟩
  · have hserving := serving_of_pending hr ho
    have := hserving.1.2
    rw [role_embeds hembeds] at this
    cases this

/-- A request for embeddings reaches the engine without a decision or a permit. -/
theorem embeddings_unadmitted : ∃ c, Reach (serverWorld Unit nativeNode) (fun _ _ => True)
    (serverStart nativeNode {} fun _ => .embeddings ⟨7, "", [], none⟩) c ∧
    (c.pending (.request ())).any ServerOp.callsEmbeddings = true ∧ (c.loc (.request ())).holding.permit = none ∧
    c.sh.store.tables.decisions = [] := by
  refine Conf.exists_reach ((Proc.request ()).turns nativeNode {} 3) ?_
  decide +kernel

theorem work_admitted_decode : ∃ c, Reach (serverWorld Unit nativeNode) DropSettled
    (serverStart nativeNode {} fun _ => chatInput 7 "") c ∧ c.sh.decodes (.request ()) = .running "qwen" ∧
    (c.loc (.request ())).holding.permit ≠ none ∧ (c.loc (.request ())).holding.slot = some "qwen" ∧
    Decided (fun _ => chatInput 7 "") c.sh.store.tables () := by
  have hrun : ∃ c, Reach (serverWorld Unit nativeNode) DropSettled
      (serverStart nativeNode {} fun _ => chatInput 7 "") c ∧ c.sh.decodes (.request ()) = .running "qwen" := by
    refine Conf.exists_reach ((Proc.request ()).turns nativeNode {} 17) ?_
    decide +kernel
  obtain ⟨c, hr, hd⟩ := hrun
  exact ⟨c, hr, hd, (work_admitted nativeNode {} _ (fun _ => rfl) hr).2.2.1 _ _ hd⟩

end

end Llmctl
