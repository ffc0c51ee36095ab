import Llmctl.Cli.KeysSound
import Llmctl.Server.AttributionSound
import Llmctl.Server.CapacitySound
import Llmctl.Server.Security

/-!
# Work needs a key

Before a request has shown a key with the scope of its route, it asks whether the server
drains, reads the clock, authenticates and writes the audit row of its refusal, nothing
else. The key is one of a configuration that the checks accepted.
-/

namespace Llmctl

open Async

/-! ## What the checks leave -/

theorem ensure_ok {holds : Bool} {message : String} : ensure holds message = .ok () ↔ holds = true := by
  cases holds <;> simp [ensure]

theorem then_ok {x : Result Unit} {f : Unit → Result Unit} : (x >>= f) = .ok () ↔ x = .ok () ∧ f () = .ok () := by
  cases x with
  | error err => simp [bind, Except.bind]
  | ok a => simp [bind, Except.bind]

theorem forM_ok {α : Type} {f : α → Result Unit} {l : List α} : l.forM f = .ok () ↔ ∀ a ∈ l, f a = .ok () := by
  induction l with
  | nil => simp [pure, Except.pure]
  | cons a l ih =>
    have hl : (forM l f : Result Unit) = .ok () ↔ ∀ a ∈ l, f a = .ok () := ih
    simp [List.forM_cons, then_ok, hl]

theorem validateApiKeysAreHashes_ok {keys : List Cli.ApiKeyConfig} : ∀ {ids : List String},
    validateApiKeysAreHashes ids keys = .ok () ↔ (keys.map (·.id)).Nodup ∧ ∀ key ∈ keys, isBlank key.id = false ∧
      key.id ∉ ids ∧ isBlank key.subject = false ∧ isBlank key.team = false ∧ isSha256Hex key.sha256 = true := by
  induction keys with
  | nil => simp [validateApiKeysAreHashes]
  | cons key keys ih =>
    intro ids
    simp only [validateApiKeysAreHashes, then_ok, ensure_ok, ih, List.map_cons, List.nodup_cons, List.mem_map, List.mem_cons,
      Bool.not_eq_true', List.contains_eq_mem, decide_eq_false_iff_not, forall_eq_or_imp, not_exists, not_and, not_or]
    constructor
    · intro h
      obtain ⟨hid, hnew, hsubject, hteam, hhash, hnodup, hkeys⟩ := h
      exact ⟨⟨fun key' hkey' => (hkeys key' hkey').2.1.1, hnodup⟩, ⟨hid, hnew, hsubject, hteam, hhash⟩,
        fun key' hkey' => ⟨(hkeys key' hkey').1, (hkeys key' hkey').2.1.2, (hkeys key' hkey').2.2⟩⟩
    · intro h
      obtain ⟨⟨hother, hnodup⟩, ⟨hid, hnew, hsubject, hteam, hhash⟩, hkeys⟩ := h
      exact ⟨hid, hnew, hsubject, hteam, hhash, hnodup,
        fun key' hkey' => ⟨(hkeys key' hkey').1, ⟨hother key' hkey', (hkeys key' hkey').2.1⟩, (hkeys key' hkey').2.2⟩⟩

/-- What the keys of a configuration are like that others can reach a server with. -/
structure ServedKeys (now : Cli.ApiKeyConfig → Int) (cfg : SecurityConfig) : Prop where
  requireAuth : cfg.requireAuth = true
  nodup : (cfg.apiKeys.map (·.id)).Nodup
  declared : ∀ key ∈ cfg.apiKeys, isBlank key.subject = false ∧ isBlank key.team = false ∧ isSha256Hex key.sha256 = true
  scopes : ∀ key ∈ cfg.apiKeys, key.scopes ≠ [] ∧ ∀ scope ∈ key.scopes, isAllowedApiKeyScope scope = true
  live : ∀ key ∈ cfg.apiKeys, key.status ≠ "revoked" ∧ ∀ expiresAt ∈ key.expiresAt, now key < expiresAt

theorem servedKeys_of_valid {now : Cli.ApiKeyConfig → Int} {cfg : ServingConfig}
    (h : validateProductionSecurity now cfg = .ok ()) (hexternal : cfg.isExternal = true) : ServedKeys now cfg.security := by
  simp only [validateProductionSecurity, if_pos hexternal, then_ok, validateExternalServing, ensure_ok,
    validateApiKeysAreHashes_ok, validateApiKeyScopes, validateApiKeysForActiveServing, forM_ok] at h
  obtain ⟨⟨hnodup, hkeys⟩, hscopes, -, -, -, -, hauth, -, hlive, -⟩ := h
  constructor
  · exact (Bool.and_eq_true _ _ ▸ hauth).1
  · exact hnodup
  · exact fun key hkey => (hkeys key hkey).2.2
  · intro key hkey
    obtain ⟨hsome, hall⟩ := hscopes key hkey
    exact ⟨by simpa using hsome, fun scope hscope => (hall scope hscope).2⟩
  · intro key hkey
    obtain ⟨hstatus, hexpiry⟩ := hlive key hkey
    refine ⟨by simpa using hstatus, fun expiresAt hexpires => ?_⟩
    rw [hexpires] at hexpiry
    simpa using hexpiry

/-! ## Clearance -/

/-- The scope that a route asks for; an operator's own drain or stop is no request. -/
def Route.scope : Route → Option String
  | .served (.chat _) | .served (.embeddings _) | .search _ | .recommendations _ => some "chat"
  | .served (.swap _) | .admin .. => some "admin"
  | .models _ => some "models.read"
  | .served (.drain _) | .served (.stop _) => none

/-- The request was authenticated with the scope of its route. -/
def Cleared (route : Route) (m : Ledger) : Prop :=
  ∃ principal scope, m.principal = some principal ∧ route.scope = some scope ∧ principal.hasScope scope = true

/-- What a request may call before. -/
def ServerOp.preliminary : ServerOp → Bool
  | .isDraining | .instant | .utcNow | .authenticate => true
  | .store .acquireQuery | .store (.insertAuditEvent _) | .store .finishQuery => true
  | _ => false

/-- A request authenticates once at most. -/
def Guarded (route : Route) (o : ServerOp) (lm : Local × Ledger) : Prop :=
  (o = .authenticate → lm.2.principal = none) ∧ (o.preliminary = true ∨ Cleared route lm.2)

theorem guarded_of_preliminary {route : Route} {o : ServerOp} (ho : o.preliminary = true) (hne : o ≠ .authenticate)
    (lm : Local × Ledger) : Guarded route o lm :=
  ⟨fun heq => absurd heq hne, .inl ho⟩

/-- The statuses of refusals. -/
def refusals : List StatusCode := [401, 403, 429, 503]

def Earned (route : Route) (result : Option Response) (lm : Local × Ledger) : Prop :=
  (∃ response, result = some response ∧ response.status ∈ refusals) ∨ Cleared route lm.2

section
variable {R : Type} [DecidableEq R] {st : ServerState} {routes : R → Route} {r : R} {l : Local} {m : Ledger}

abbrev Clears (st : ServerState) (routes : R → Route) (r : R) (p : ServerProg (Option Response)) (lm : Local × Ledger) : Prop :=
  Always (ledgered R st) (.request r) (Guarded (routes r)) (Earned (routes r)) p lm

/-- What keeps to one identity goes on as it was cleared. -/
theorem clears_of_cleared (who : Identity) {p : ServerProg (Option Response)} (hp : Keeps who p)
    (hm : Cleared (routes r) m) : Clears st routes r p (l, m) := by
  have hguarded : ∀ o (lm : Local × Ledger), who.Records o → Cleared (routes r) lm.2 → Guarded (routes r) o lm := by
    intro o lm ho hlm
    refine ⟨fun heq => ?_, .inr hlm⟩
    rw [heq] at ho
    exact ho.elim
  have hsees : ∀ o a (lm : Local × Ledger), who.Records o → Cleared (routes r) lm.2 →
      Cleared (routes r) ((ledgered R st).loc (.request r) o a lm).2 := by
    intro o a lm ho hlm
    show Cleared (routes r) (Ledger.see o a lm.2)
    rw [ho.see]
    exact hlm
  have h := Always.of_all (P := fun lm : Local × Ledger => Cleared (routes r) lm.2) hguarded hsees hp (l := (l, m)) hm
  exact h.mono (fun _ _ h => h) fun _ _ hcleared => .inr hcleared

theorem clears_refusal {response : Response} (h : response.status ∈ refusals)
    (hbody : ∀ generator, response.body ≠ .stream generator) (lm : Local × Ledger) :
    Clears st routes r (respond response) lm := by
  unfold respond
  cases hresponse : response.body with
  | stream generator => exact absurd hresponse (hbody generator)
  | _ => exact .inl ⟨response, rfl, h⟩

/-- An audit row is all that a refusal leaves. -/
theorem clears_audit (requestId : Option Nat) (principal : Principal) (action resource outcome : String) (detail : Json)
    {p : ServerProg (Option Response)} (hp : ∀ lm, Clears st routes r p lm) (lm : Local × Ledger) :
    Clears st routes r (recordAudit requestId principal action resource outcome detail >>= fun _ => p) lm := by
  refine ⟨guarded_of_preliminary rfl (by simp) _, fun now g _ => ?_⟩
  refine ⟨guarded_of_preliminary rfl (by simp) _, fun (acquired : Result Unit) g _ => ?_⟩
  cases acquired with
  | error err => exact hp _
  | ok _ =>
    refine ⟨guarded_of_preliminary rfl (by simp) _, fun _ _ _ => ?_⟩
    exact ⟨guarded_of_preliminary rfl (by simp) _, fun _ _ _ => hp _⟩

theorem clears_error {status : StatusCode} (h : status ∈ refusals) (code message : String) (requestId : Nat)
    (lm : Local × Ledger) : Clears st routes r (respond (withRequestId (errorResponse status code message) requestId)) lm :=
  clears_refusal h (fun _ hbody => by cases hbody) lm

theorem clears_authError (err : String) (requestId : Nat) (lm : Local × Ledger) :
    Clears st routes r (respond (withRequestId (authErrorResponse err) requestId)) lm := by
  unfold authErrorResponse
  split
  · exact clears_error (by decide) _ _ requestId lm
  · exact clears_error (by decide) _ _ requestId lm

omit [DecidableEq R] in
theorem cleared_of_scope {principal : Principal} {scope : String} (hscope : (routes r).scope = some scope)
    (hhas : principal.hasScope scope = true) : Cleared (routes r) { m with principal := some principal } :=
  ⟨principal, scope, rfl, hscope, hhas⟩

section
variable (hnone : m.principal = none)
include hnone

theorem authorizeScope_clears {scope : String} (hscope : (routes r).scope = some scope) (requestId : Nat)
    (action resource : String) {f : Except Response Principal → ServerProg (Option Response)}
    (herr : ∀ response, f (.error response) = respond response)
    (hok : ∀ principal, ∃ who, Keeps who (f (.ok principal))) :
    Clears st routes r (authorizeScope requestId action resource scope >>= f) (l, m) := by
  unfold authorizeScope
  rw [Prog.bind_assoc]
  refine Always.op ⟨fun _ => hnone, .inl rfl⟩ fun (a : Result Principal) g _ => ?_
  cases a with
  | error err =>
    simp only [auditRejectResponse, Prog.bind_assoc]
    apply clears_audit
    intro lm
    simp only [Prog.pure_eq, Prog.done_bind, herr]
    exact clears_authError err requestId lm
  | ok principal =>
    simp only
    by_cases hhas : principal.hasScope scope = true
    · rw [if_pos hhas]
      obtain ⟨who, hkeeps⟩ := hok principal
      exact clears_of_cleared who hkeeps (cleared_of_scope hscope hhas)
    · rw [if_neg hhas]
      simp only [auditReject, auditRejectResponse, Prog.bind_assoc]
      apply clears_audit
      intro lm
      simp only [Prog.pure_eq, Prog.done_bind, herr]
      exact clears_error (by decide) _ _ requestId lm

omit hnone in
theorem drained_clears (requestId : Nat) {p : ServerProg Response}
    (hp : ∀ l, Clears st routes r (p >>= respond) (l, m)) :
    Clears st routes r ((do
      match ← drainingResponse requestId with
      | some response => pure response
      | none => p) >>= respond) (l, m) := by
  refine ⟨guarded_of_preliminary rfl (by simp) _, fun (draining : Bool) g _ => ?_⟩
  cases draining with
  | true => exact .inl ⟨_, rfl, by simp [withRequestId, errorResponse, refusals]⟩
  | false => exact hp _

/-! ## Routes -/

theorem handler_clears (hscope : (routes r).scope = some "chat") (requestId : Nat) (action : String)
    {f : Nat → Except Response Principal → ServerProg Response}
    (herr : ∀ started response, f started (.error response) = pure response)
    (hok : ∀ started principal, Replies ⟨requestId, principal⟩ (f started (.ok principal))) :
    Clears st routes r ((do
      match ← drainingResponse requestId with
      | some response => pure response
      | none =>
        let started ← op .instant
        let result ← authenticateWithChatScope requestId action
        f started result) >>= respond) (l, m) := by
  apply drained_clears
  intro l
  refine ⟨guarded_of_preliminary rfl (by simp) _, fun started g _ => ?_⟩
  show Clears st routes r ((authenticateWithChatScope requestId action >>= f started) >>= respond) _
  rw [Prog.bind_assoc, authenticateWithChatScope_eq]
  apply authorizeScope_clears hnone hscope
  · intro response
    rw [herr]
    rfl
  · exact fun principal => ⟨_, (hok started principal).respond⟩

theorem chatCompletions_clears {request : HttpRequest} (hroute : routes r = .served (.chat request)) :
    Clears st routes r (chatCompletions st request >>= respond) (l, m) := by
  apply handler_clears hnone (by rw [hroute]; rfl) request.requestId "chat.completions" (fun _ _ => rfl)
  intro started principal
  simp only
  split
  · exact auditReject_replies _ _ _ _ _ _ rfl
  · split
    · rename_i err _
      refine auditRejectResponse_replies _ _ _ ?_ rfl
      cases err <;> trivial
    · exact guardChat_replies request principal started _ _

theorem nativeEmbeddings_clears {request : HttpRequest} (hroute : routes r = .served (.embeddings request)) :
    Clears st routes r (nativeEmbeddings st request >>= respond) (l, m) := by
  apply handler_clears hnone (by rw [hroute]; rfl) request.requestId "embeddings" (fun _ _ => rfl)
  intro started principal
  simp only
  split
  · exact auditReject_replies _ _ _ _ _ _ rfl
  · split
    · exact auditReject_replies _ _ _ _ _ _ rfl
    · split
      · rename_i err _
        refine auditRejectResponse_replies _ _ _ ?_ rfl
        cases err <;> trivial
      · exact serveEmbeddings_replies request principal started _ _

theorem adminSwap_clears {request : AdminSwapRequest} (hroute : routes r = .served (.swap request)) :
    Clears st routes r (adminSwap st request >>= respond) (l, m) := by
  have hscope : (routes r).scope = some "admin" := by
    rw [hroute]
    rfl
  unfold adminSwap
  rw [Prog.bind_assoc]
  refine Always.op ⟨fun _ => hnone, .inl rfl⟩ fun (a : Result Principal) g _ => ?_
  cases a with
  | error err => exact clears_authError err request.requestId _
  | ok principal =>
    simp only
    by_cases hhas : principal.hasScope "admin" = true
    · refine clears_of_cleared ⟨request.requestId, principal⟩ (Replies.respond ?_) (cleared_of_scope hscope hhas)
      simp only [hhas, Bool.not_true, Bool.false_eq_true, if_false]
      split
      · exact swapRejected_replies ..
      · split
        · exact swapRejected_replies ..
        · refine Prog.Meets.op trivial fun _ => ?_
          refine (supervisor_keeps _).seq fun execution => Prog.Meets.op trivial fun _ => ?_
          exact (recordAudit_keeps _ _ _ rfl).seq fun _ => trivial
    · simp only [Bool.eq_false_iff.mpr hhas, Bool.not_false, if_true, swapRejected, auditRejectResponse, Prog.bind_assoc]
      apply clears_audit
      intro lm
      exact clears_error (by decide) _ _ request.requestId lm

theorem listModels_clears {requestId : Nat} (hroute : routes r = .models requestId) :
    Clears st routes r (listModels st requestId >>= respond) (l, m) := by
  apply drained_clears
  intro l
  rw [Prog.bind_assoc]
  apply authorizeScope_clears hnone (by rw [hroute]; rfl)
  · exact fun response => rfl
  · exact fun principal => ⟨⟨requestId, principal⟩, Replies.respond ((recordAudit_keeps _ _ _ rfl).seq fun _ => trivial)⟩

theorem adminPage_clears {requestId : Nat} {page : AdminPage} {fields : Json} (hroute : routes r = .admin requestId page fields) :
    Clears st routes r (adminPage requestId page fields >>= respond) (l, m) := by
  unfold adminPage authorizeAdmin
  rw [Prog.bind_assoc, Prog.bind_assoc]
  apply authorizeScope_clears hnone (by rw [hroute]; rfl)
  · exact fun response => rfl
  · intro principal
    refine ⟨⟨requestId, principal⟩, ?_⟩
    simp only [Prog.bind_assoc]
    exact (recordAudit_keeps _ _ _ rfl).bind fun _ => trivial

theorem serveLocal_clears (hscope : (routes r).scope = some "chat") (request : LocalRequest) (action : String)
    {detail : Json} (hdetail : detail.Keyless) (fields : Json) :
    Clears st routes r (serveLocal request action detail fields >>= respond) (l, m) := by
  apply drained_clears
  intro l
  rw [Prog.bind_assoc]
  refine Always.op ⟨fun _ => hnone, .inl rfl⟩ fun (a : Result Principal) g _ => ?_
  cases a with
  | error err => exact clears_authError err request.requestId _
  | ok principal =>
    simp only
    by_cases hhas : principal.hasScope "chat" = true
    · rw [if_pos hhas]
      refine clears_of_cleared ⟨request.requestId, principal⟩ (Replies.respond ?_) (cleared_of_scope hscope hhas)
      exact (recordRequestLineageJoins_keeps _ _ _ _).seq fun _ => (recordAudit_keeps _ _ _ hdetail).seq fun _ => trivial
    · rw [if_neg hhas]
      exact clears_error (by decide) _ _ request.requestId _

theorem serve_clears {scope : String} (hscope : (routes r).scope = some scope) (l : Local) :
    Clears st routes r ((routes r).serve st) (l, m) := by
  cases hr : routes r with
  | served input =>
    cases input with
    | chat request => exact chatCompletions_clears hnone hr
    | embeddings request => exact nativeEmbeddings_clears hnone hr
    | swap request => exact adminSwap_clears hnone hr
    | drain id =>
      rw [hr] at hscope
      cases hscope
    | stop id =>
      rw [hr] at hscope
      cases hscope
  | models requestId => exact listModels_clears hnone hr
  | admin requestId page fields => exact adminPage_clears hnone hr
  | search request => exact serveLocal_clears hnone (by rw [hr]; rfl) _ _ rfl _
  | recommendations request => exact serveLocal_clears hnone (by rw [hr]; rfl) _ _ rfl _

end

/-! ## Every process -/

/-- What a process may call: an operator's own calls go to the workers, a request is
guarded, and a task has a job before anything else. -/
def Permitted (routes : R → Route) : Proc R → ServerOp → Local × Ledger → Prop
  | .request r, o, lm => ((routes r).scope = none ∧ ∃ w, o = .worker w) ∨ Guarded (routes r) o lm
  | .task _, o, lm => o = .task .start ∨ lm.2.job.isSome = true

def Deserved (routes : R → Route) : Proc R → Option Response → Local × Ledger → Prop
  | .request r, result, lm => (routes r).scope = none ∨ Earned (routes r) result lm
  | .task _, _, _ => True

omit [DecidableEq R] in
theorem see_principal {o : ServerOp} (ho : o ≠ .authenticate) (a : ServerSig.Ans o) :
    (Ledger.see o a m).principal = m.principal := by
  cases o with
  | authenticate => exact absurd rfl ho
  | task o => cases o <;> rfl
  | _ => rfl

theorem see_job_isSome (o : ServerOp) (a : ServerSig.Ans o) (h : m.job.isSome = true) :
    (Ledger.see o a m).job.isSome = true := by
  cases o with
  | authenticate => cases a <;> exact h
  | task o =>
    cases o with
    | start => rfl
    | _ => exact h
  | _ => exact h

theorem detachedTask_permitted (lm : Local × Ledger) :
    Always (ledgered R st) (.task r) (Permitted routes (.task r)) (Deserved routes (.task r)) detachedTask lm := by
  refine Always.op (.inl rfl) fun (job : Job) g _ => ?_
  refine Always.mono (fun _ _ h => h) (fun _ _ _ => trivial) (Always.of_all
    (P := fun lm : Local × Ledger => lm.2.job.isSome = true) (Q := fun _ => True) (fun _ _ _ hlm => .inr hlm)
    (fun o a lm _ hlm => see_job_isSome o a hlm) (Prog.all_of_forall (fun _ => trivial) _) ?_)
  rfl

theorem operator_permitted (hscope : (routes r).scope = none) (p : WorkerProg WorkerStatus) (lm : Local × Ledger) :
    Always (ledgered R st) (.request r) (Permitted routes (.request r)) (Deserved routes (.request r))
      (underSupervisorLock p) lm := by
  have hworker : (underSupervisorLock p).All fun o => ∃ w, o = ServerOp.worker w := by
    have hp : (supervisor p).All fun o => ∃ w, o = ServerOp.worker w :=
      (Prog.all_of_forall (P := fun _ => True) (fun _ => trivial) p).lift fun w _ => ⟨w, rfl⟩
    exact ⟨⟨_, rfl⟩, fun _ => hp.bind fun _ => ⟨⟨_, rfl⟩, fun _ => trivial⟩⟩
  refine Always.mono (fun _ _ h => h) (fun _ _ _ => .inl hscope) (Always.of_all
    (P := fun _ : Local × Ledger => True) (fun _ _ ho _ => .inl ⟨hscope, ho⟩) (fun _ _ _ _ _ => trivial) hworker trivial)

theorem ledgeredStart_permitted (workers : Workers) :
    Typed (ledgered R st) (Permitted routes) (Deserved routes) (ledgeredStart st workers routes) := by
  intro i p hp
  cases i with
  | task r =>
    cases hp
    exact detachedTask_permitted _
  | request r =>
    cases hp
    cases hscope : (routes r).scope with
    | some scope => exact (serve_clears rfl hscope {}).mono (fun _ _ h => .inr h) fun _ _ h => .inr h
    | none =>
      cases hroute : routes r with
      | served input =>
        cases input with
        | drain id => exact operator_permitted hscope _ _
        | stop id => exact operator_permitted hscope _ _
        | chat request => simp [hroute, Route.scope] at hscope
        | embeddings request => simp [hroute, Route.scope] at hscope
        | swap request => simp [hroute, Route.scope] at hscope
      | models requestId => simp [hroute, Route.scope] at hscope
      | admin requestId page fields => simp [hroute, Route.scope] at hscope
      | search request => simp [hroute, Route.scope] at hscope
      | recommendations request => simp [hroute, Route.scope] at hscope

end

/-! ## Runs -/

section
variable {R : Type} [DecidableEq R] (sha256 : String → String) (cfg : SecurityConfig) (headers : R → HeaderMap)

/-- Whoever a request is authenticated as, its headers say so. -/
def Authentic (_ : LedgeredConf R) (label : Label ServerSig (Proc R) (ServerEvent R)) : Prop :=
  ∀ x ∈ authentication label, ∃ now, authenticate sha256 cfg now (headers x.1) = .ok x.2

/-- What a request armed or handed over, it was cleared for. -/
structure Vetted (routes : R → Route) (loc : Proc R → Local × Ledger) (g : Server R) : Prop where
  authentic : ∀ r principal, (loc (.request r)).2.principal = some principal →
    ∃ now, authenticate sha256 cfg now (headers r) = .ok principal
  guard : ∀ r data, (loc (.request r)).1.holding.guard = some data → Cleared (routes r) (loc (.request r)).2
  jobs : ∀ r job, g.jobs r = some job → Cleared (routes r) (loc (.request r)).2
  task : ∀ r, (loc (.task r)).2.job.isSome = true → Cleared (routes r) (loc (.request r)).2

end

section
variable {R : Type} [DecidableEq R] {sha256 : String → String} {cfg : SecurityConfig} {headers : R → HeaderMap}
  {st : ServerState} {routes : R → Route} {loc : Proc R → Local × Ledger} {g g' : Server R} {i : Proc R} {l : Local} {m : Ledger}

/-- What a step of `i` owes for the invariant to go on. -/
theorem Vetted.update (h : Vetted sha256 cfg headers routes loc g)
    (hcleared : ∀ r, i = .request r → Cleared (routes r) (loc i).2 → Cleared (routes r) m)
    (hauthentic : ∀ r principal, i = .request r → m.principal = some principal →
      ∃ now, authenticate sha256 cfg now (headers r) = .ok principal)
    (hguard : ∀ r data, i = .request r → l.holding.guard = some data → Cleared (routes r) m)
    (hjobs : ∀ r job, g'.jobs r = some job → (∃ job, g.jobs r = some job) ∨ i = .request r ∧ Cleared (routes r) m)
    (htask : ∀ r, i = .task r → m.job.isSome = true → Cleared (routes r) (loc (.request r)).2) :
    Vetted sha256 cfg headers routes (Function.update loc i (l, m)) g' := by
  have hkept : ∀ r, Cleared (routes r) (loc (.request r)).2 →
      Cleared (routes r) (Function.update loc i (l, m) (.request r)).2 := by
    intro r hr
    by_cases hi : Proc.request r = i
    · subst hi
      rw [Function.update_self]
      exact hcleared r rfl hr
    · rw [Function.update_of_ne hi]
      exact hr
  constructor
  · intro r principal hp
    by_cases hi : Proc.request r = i
    · subst hi
      rw [Function.update_self] at hp
      exact hauthentic r principal rfl hp
    · rw [Function.update_of_ne hi] at hp
      exact h.authentic r principal hp
  · intro r data hdata
    by_cases hi : Proc.request r = i
    · subst hi
      rw [Function.update_self] at hdata ⊢
      exact hguard r data rfl hdata
    · rw [Function.update_of_ne hi] at hdata
      exact hkept r (h.guard r data hdata)
  · intro r job hjob
    cases hjobs r job hjob with
    | inl hold =>
      obtain ⟨old, hold⟩ := hold
      exact hkept r (h.jobs r old hold)
    | inr hnew =>
      rw [← hnew.1, Function.update_self]
      exact hnew.2
  · intro r hr
    by_cases hi : Proc.task r = i
    · subst hi
      rw [Function.update_self] at hr
      exact hkept r (htask r rfl hr)
    · rw [Function.update_of_ne hi] at hr
      exact hkept r (h.task r hr)

omit [DecidableEq R] in
theorem holding_guard {o : ServerOp} {a : ServerSig.Ans o} {held : Holding} {data : StreamDisconnectData}
    (h : (o.holding a held).guard = some data) : (∃ old, held.guard = some old) ∨ o = .body (.arm data) := by
  cases o with
  | body o =>
    cases o with
    | arm armed =>
      cases h
      exact .inr rfl
    | updateCounts input output =>
      obtain ⟨old, hold, -⟩ := Option.map_eq_some_iff.mp h
      exact .inl ⟨old, hold⟩
    | disarm => cases h
    | _ => exact .inl ⟨data, h⟩
  | _ => exact .inl ⟨data, h⟩

theorem sh_jobs {o : ServerOp} {a : ServerSig.Ans o} {r : R} {job : Job} (h : (o.sh st i l g a).jobs r = some job) :
    (∃ old, g.jobs r = some old) ∨ i = .request r ∧ ∃ job, o = .task (.spawn job) := by
  cases o with
  | task o =>
    have hjobs : o.jobs i g.jobs r = some job := h
    cases o with
    | spawn new =>
      cases i with
      | task r' => exact .inl ⟨job, hjobs⟩
      | request r' =>
        by_cases hr : r = r'
        · subst hr
          exact .inr ⟨rfl, new, rfl⟩
        · simp only [TaskOp.jobs, Function.update_of_ne hr] at hjobs
          exact .inl ⟨job, hjobs⟩
    | start =>
      cases i with
      | request r' => exact .inl ⟨job, hjobs⟩
      | task r' =>
        by_cases hr : r = r'
        · subst hr
          simp [TaskOp.jobs] at hjobs
        · simp only [TaskOp.jobs, Function.update_of_ne hr] at hjobs
          exact .inl ⟨job, hjobs⟩
    | _ => exact .inl ⟨job, hjobs⟩
  | _ => exact .inl ⟨job, h⟩

omit [DecidableEq R] in
/-- A call that is not preliminary is one of a cleared request. -/
theorem Permitted.cleared {r : R} {o : ServerOp} {lm : Local × Ledger} (h : Permitted routes (.request r) o lm)
    (ho : o.preliminary = false) (hworker : ∀ w, o ≠ .worker w) : Cleared (routes r) lm.2 := by
  cases h with
  | inl hoperator =>
    obtain ⟨-, w, hw⟩ := hoperator
    exact absurd hw (hworker w)
  | inr hguarded =>
    cases hguarded.2 with
    | inl hpre =>
      rw [ho] at hpre
      cases hpre
    | inr hcleared => exact hcleared

theorem vetted_answer {c : LedgeredConf R} (h : Vetted sha256 cfg headers routes c.loc c.sh) {o : ServerOp}
    {a : ServerSig.Ans o} (hpermitted : Permitted routes i o (c.loc i))
    (hok : Authentic sha256 cfg headers c (.answer i o a)) (hc : (ledgered R st).can i o a (c.loc i) c.sh = true) :
    Vetted sha256 cfg headers routes (Function.update c.loc i ((ledgered R st).loc i o a (c.loc i)))
      ((ledgered R st).sh i o a (c.loc i) c.sh) := by
  have hcleared : ∀ r, i = .request r → Cleared (routes r) (c.loc i).2 → Cleared (routes r) (Ledger.see o a (c.loc i).2) := by
    intro r hi hcleared
    subst hi
    obtain ⟨principal, scope, hprincipal, hscope, hhas⟩ := hcleared
    by_cases ho : o = .authenticate
    · subst ho
      have hnone : (c.loc (.request r)).2.principal = none := by
        cases hpermitted with
        | inl hoperator =>
          obtain ⟨-, w, hw⟩ := hoperator
          cases hw
        | inr hguarded => exact hguarded.1 rfl
      rw [hnone] at hprincipal
      cases hprincipal
    · exact ⟨principal, scope, (see_principal ho a).trans hprincipal, hscope, hhas⟩
  apply h.update
  · exact hcleared
  · intro r principal hi hp
    subst hi
    by_cases ho : o = .authenticate
    · subst ho
      cases a with
      | error err => exact h.authentic r principal hp
      | ok found =>
        cases hp
        exact hok (r, principal) rfl
    · exact h.authentic r principal ((see_principal ho a).symm.trans hp)
  · intro r data hi hdata
    apply hcleared r hi
    subst hi
    cases holding_guard hdata with
    | inl hold =>
      obtain ⟨old, hold⟩ := hold
      exact h.guard r old hold
    | inr harm =>
      subst harm
      exact hpermitted.cleared rfl fun w hw => by cases hw
  · intro r job hjob
    cases sh_jobs hjob with
    | inl hold => exact .inl hold
    | inr hspawn =>
      obtain ⟨hi, new, ho⟩ := hspawn
      refine .inr ⟨hi, hcleared r hi ?_⟩
      subst hi ho
      exact hpermitted.cleared rfl fun w hw => by cases hw
  · intro r hi hjob
    subst hi
    by_cases hold : (c.loc (.task r)).2.job.isSome = true
    · exact h.task r hold
    · cases hpermitted with
      | inr hjob => exact absurd hjob hold
      | inl hstart =>
        subst hstart
        have hhanded : c.sh.jobs r = some a := by simpa [World.observe, serverWorld, ServerOp.can, Server.job] using hc
        exact h.jobs r a hhanded

theorem vetted_drop {c : LedgeredConf R} (h : Vetted sha256 cfg headers routes c.loc c.sh) (o : ServerOp) :
    Vetted sha256 cfg headers routes (Function.update c.loc i ((ledgered R st).dropLoc i o (c.loc i)))
      ((ledgered R st).dropSh i o (c.loc i) c.sh) := by
  apply h.update
  · exact fun r _ hcleared => hcleared
  · intro r principal hi hp
    subst hi
    exact h.authentic r principal hp
  · exact fun r data _ hdata => by cases hdata
  · intro r job hjob
    have hjobs : (c.sh.drop i o (c.loc i).1).jobs r = some job := hjob
    by_cases hi : i = .request r
    · subst hi
      cases hguard : (c.loc (.request r)).1.holding.guard with
      | none =>
        simp only [Server.drop, hguard] at hjobs
        exact .inl ⟨job, hjobs⟩
      | some data => exact .inr ⟨rfl, h.guard r data hguard⟩
    · rw [jobs_drop hi] at hjobs
      exact .inl ⟨job, hjobs⟩
  · intro r hi hjob
    subst hi
    exact h.task r hjob

theorem vetted_reach {workers : Workers} {c : LedgeredConf R}
    (hr : Reach (ledgered R st) (Authentic sha256 cfg headers) (ledgeredStart st workers routes) c) :
    Vetted sha256 cfg headers routes c.loc c.sh := by
  refine (ledgeredStart_permitted workers).pool (J := Vetted sha256 cfg headers routes) ?_ ?_ ?_ ?_ hr
  · constructor
    · exact fun r principal hp => by cases hp
    · exact fun r data hdata => by cases hdata
    · exact fun r job hjob => by cases hjob
    · exact fun r hjob => by cases hjob
  · exact fun c i o a h hpermitted hok hc => vetted_answer h hpermitted hok hc
  · exact fun c i o h _ _ _ => vetted_drop h o
  · intro c e h _ _
    show Vetted sha256 cfg headers routes c.loc (e.apply c.sh)
    rw [e.apply_eq]
    exact ⟨h.authentic, h.guard, h.jobs, h.task⟩

/-! ## Work and keys -/

/-- The headers show the secret of a key of the configuration that was live when it was
looked up, and whose scopes allow the route. -/
def Keyed (sha256 : String → String) (cfg : SecurityConfig) (headers : HeaderMap) (route : Route) : Prop :=
  ∃ key ∈ cfg.apiKeys, ∃ now secret scope, Cli.Presents headers secret ∧
    constantTimeEqCaseInsensitive key.sha256 (sha256 secret) = true ∧ apiKeyCanAuthenticate key now = true ∧
    route.scope = some scope ∧ (Principal.ofApiKey key).hasScope scope = true

omit [DecidableEq R] in
theorem authenticate_ok {now : Int} {h : HeaderMap} {principal : Principal} (hauth : cfg.requireAuth = true)
    (hok : authenticate sha256 cfg now h = .ok principal) : ∃ key ∈ cfg.apiKeys, ∃ secret, Cli.Presents h secret ∧
      constantTimeEqCaseInsensitive key.sha256 (sha256 secret) = true ∧ apiKeyCanAuthenticate key now = true ∧
      principal = .ofApiKey key := by
  have hpresents : ∃ secret, Cli.Presents h secret := by
    simp only [authenticate, hauth, Bool.not_true, Bool.false_eq_true, if_false] at hok
    split at hok
    · cases hok
    · rename_i header hheader
      split at hok
      · cases hok
      · rename_i hbearer
        obtain ⟨secret, hsecret⟩ := List.isPrefixOf_iff_prefix.mp hbearer
        exact ⟨String.ofList secret, by simp [Cli.Presents, hheader, ← hsecret]⟩
  obtain ⟨secret, hsecret⟩ := hpresents
  rw [Cli.authenticate_presents hsecret hauth] at hok
  split at hok
  · rename_i key hfind
    have hmem := List.mem_filter.mp (List.mem_of_find?_eq_some hfind)
    have hdigest := List.find?_some hfind
    cases hok
    exact ⟨key, hmem.1, secret, hsecret, hdigest, hmem.2, rfl⟩
  · cases hok

omit [DecidableEq R] in
theorem keyed_of_cleared {c : LedgeredConf R} (hauth : cfg.requireAuth = true)
    (h : Vetted sha256 cfg headers routes c.loc c.sh) {r : R} (hcleared : Cleared (routes r) (c.loc (.request r)).2) :
    Keyed sha256 cfg (headers r) (routes r) := by
  obtain ⟨principal, scope, hprincipal, hscope, hhas⟩ := hcleared
  obtain ⟨now, hok⟩ := h.authentic r principal hprincipal
  obtain ⟨key, hkey, secret, hsecret, hdigest, hlive, rfl⟩ := authenticate_ok hauth hok
  exact ⟨key, hkey, now, secret, scope, hsecret, hdigest, hlive, hscope, hhas⟩

omit [DecidableEq R] in
theorem prog_of_pending {c : LedgeredConf R} {o : ServerOp} (h : c.pending i = some o) :
    ∃ k, c.prog i = some (.call o k) := by
  unfold Conf.pending at h
  split at h
  · rename_i o' k hp
    cases h
    exact ⟨k, hp⟩
  · cases h

end

/-! ## A stranger -/

def openNode : ServingConfig where
  host := "0.0.0.0"
  tls := ⟨true, some "cert.pem", some "key.pem", false⟩
  security :=
    { requireAuth := true, authFailureLimitPerMinute := 0, trustedProxies := [], apiKeys := [Cli.opsKey "active"] }
  production := false
  bindExternal := false
  tlsTermination := ⟨false, none, none⟩
  audit := ⟨30, true, some "reports"⟩
  observability := ⟨true, true, true, some "http://collector:4317", [], none⟩
  externalProviders := false

theorem openNode_valid : validateProductionSecurity (fun _ => 0) openNode = .ok () := by decide +kernel

end Llmctl
