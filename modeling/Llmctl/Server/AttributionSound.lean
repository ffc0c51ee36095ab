import Llmctl.Server.RecordsSound
import Llmctl.Server.Script

/-!
# Usage and the key that pays for it

Every row goes back to a request: to its id and to the principal it was authenticated
as. A report of usage by key joins the rows by the id alone, so it bills the right key
where no two keys share an id (`usage_billed`).
-/

namespace Llmctl

open Async

/-! ## Who a process acts for -/

/-- The principal of a request, and the job that a detached task has taken. -/
structure Ledger where
  principal : Option Principal := none
  job : Option Job := none
  deriving DecidableEq, Repr

def Ledger.see : (o : ServerOp) → ServerSig.Ans o → Ledger → Ledger
  | .authenticate, (a : Result Principal), m => match a with
    | .ok principal => { m with principal := some principal }
    | .error _ => m
  | .task .start, (job : Job), m => { m with job := some job }
  | _, _, m => m

abbrev ledgered (R : Type) [DecidableEq R] (st : ServerState) := (serverWorld R st).observe Ledger.see

abbrev LedgeredConf (R : Type) := Conf ServerSig (Option Response) (Proc R) (Local × Ledger) (Server R)

def ledgeredStart {R : Type} (st : ServerState) (workers : Workers) (routes : R → Route) : LedgeredConf R where
  prog := (routerStart st workers routes).prog
  loc _ := ({}, {})
  sh := (routerStart st workers routes).sh

def Proc.identity {R : Type} (routes : R → Route) : Proc R → Ledger → Option Identity
  | .request r, m => (routes r).requestId.bind fun requestId => m.principal.map fun principal => ⟨requestId, principal⟩
  | .task _, m => m.job.map Job.identity

/-- No row of usage, no audit row that names a key, nothing handed over. -/
def Silent : ServerOp → Prop
  | .store (.insertUsageEvent _) | .body (.arm _) | .task (.spawn _) | .authenticate | .task .start => False
  | .store (.insertAuditEvent e) => e.apiKeyId = none
  | _ => True

section
variable {R : Type} [DecidableEq R] {st : ServerState} {routes : R → Route}

def Attributed (routes : R → Route) (i : Proc R) (o : ServerOp) (lm : Local × Ledger) : Prop :=
  match i.identity routes lm.2 with
  | some who => who.Records o
  | none => Silent o ∨ o = .authenticate ∨ o = .task .start

section
variable {i : Proc R} {who : Identity} {l : Local} {m : Ledger} {α : Type}

omit [DecidableEq R] in
theorem Identity.Records.see {o : ServerOp} (h : who.Records o) (a : ServerSig.Ans o) : Ledger.see o a m = m := by
  cases o with
  | authenticate => exact h.elim
  | task o =>
    cases o with
    | start => exact h.elim
    | _ => rfl
  | _ => rfl

omit [DecidableEq R] in
theorem Silent.see {o : ServerOp} (h : Silent o) (a : ServerSig.Ans o) : Ledger.see o a m = m := by
  cases o with
  | authenticate => exact h.elim
  | task o =>
    cases o with
    | start => exact h.elim
    | _ => rfl
  | _ => rfl

theorem Keeps.attributed {p : ServerProg α} (hp : Keeps who p) (hwho : i.identity routes m = some who) :
    Always (ledgered R st) i (Attributed routes i) (fun _ _ => True) p (l, m) := by
  have hrecords : ∀ o (lm : Local × Ledger), who.Records o → i.identity routes lm.2 = some who →
      Attributed routes i o lm := by
    intro o lm ho hlm
    unfold Attributed
    rw [hlm]
    exact ho
  have hsees : ∀ o a (lm : Local × Ledger), who.Records o → i.identity routes lm.2 = some who →
      i.identity routes ((ledgered R st).loc i o a lm).2 = some who := by
    intro o a lm ho hlm
    show i.identity routes (Ledger.see o a lm.2) = some who
    rw [ho.see]
    exact hlm
  have h := Always.of_all (P := fun lm : Local × Ledger => i.identity routes lm.2 = some who) hrecords hsees hp
    (l := (l, m)) hwho
  exact h.mono (fun _ _ h => h) fun _ _ _ => trivial

theorem silent_attributed {p : ServerProg α} (hp : p.All Silent) (hnone : i.identity routes m = none) :
    Always (ledgered R st) i (Attributed routes i) (fun _ lm => lm.2 = m) p (l, m) := by
  have hsilent : ∀ o (lm : Local × Ledger), Silent o → lm.2 = m → Attributed routes i o lm := by
    intro o lm ho hlm
    unfold Attributed
    rw [hlm, hnone]
    exact .inl ho
  have hsees : ∀ o a (lm : Local × Ledger), Silent o → lm.2 = m → ((ledgered R st).loc i o a lm).2 = m := by
    intro o a lm ho hlm
    show Ledger.see o a lm.2 = m
    rw [ho.see, hlm]
  exact Always.of_all (P := fun lm : Local × Ledger => lm.2 = m) hsilent hsees hp (l := (l, m)) rfl

/-! ## Programs that authenticate -/

/-- Up to its principal a request is silent, from there on it keeps to it. -/
theorem authenticate_attributed {r : R} {requestId : Nat} (hid : (routes r).requestId = some requestId)
    (hnone : m.principal = none) {f : Result Principal → ServerProg α} (herr : ∀ err, (f (.error err)).All Silent)
    (hok : ∀ principal, Keeps ⟨requestId, principal⟩ (f (.ok principal))) :
    Always (ledgered R st) (.request r) (Attributed routes (.request r)) (fun _ _ => True)
      (op .authenticate >>= f) (l, m) := by
  have hidentity : (Proc.request r).identity routes m = none := by
    simp [Proc.identity, hnone]
  refine Always.op ?_ fun (a : Result Principal) g _ => ?_
  · unfold Attributed
    rw [hidentity]
    exact .inr (.inl rfl)
  · cases a with
    | error err => exact (silent_attributed (herr err) hidentity).mono (fun _ _ h => h) fun _ _ _ => trivial
    | ok principal =>
      refine Keeps.attributed (hok principal) ?_
      show (Proc.request r).identity routes { m with principal := some principal } = some ⟨requestId, principal⟩
      simp [Proc.identity, hid]

/-- No call is left to make. -/
abbrev Returns (p : ServerProg α) : Prop := p.All fun _ => False

theorem authenticateWithChatScope_eq (requestId : Nat) (action : String) :
    authenticateWithChatScope requestId action = authorizeScope requestId action "unknown" "chat" := rfl

theorem recordAudit_silent (requestId : Option Nat) (action resource outcome : String) {detail : Json}
    (h : detail.Keyless) : (recordAudit requestId .anonymous action resource outcome detail).All Silent := by
  refine ⟨trivial, fun now => ⟨trivial, fun acquired => ?_⟩⟩
  cases acquired with
  | error err => trivial
  | ok _ => exact ⟨h, fun _ => ⟨trivial, fun _ => trivial⟩⟩

theorem authorizeScope_attributed {r : R} {requestId : Nat} (hid : (routes r).requestId = some requestId)
    (hnone : m.principal = none) (action resource scope : String) {f : Except Response Principal → ServerProg α}
    (herr : ∀ response, (∀ generator, response.body ≠ .stream generator) → Returns (f (.error response)))
    (hok : ∀ principal, Keeps ⟨requestId, principal⟩ (f (.ok principal))) :
    Always (ledgered R st) (.request r) (Attributed routes (.request r)) (fun _ _ => True)
      (authorizeScope requestId action resource scope >>= f) (l, m) := by
  have hsilent : ∀ response, (∀ generator, response.body ≠ .stream generator) → (f (.error response)).All Silent :=
    fun response hr => (herr response hr).mono fun _ => False.elim
  unfold authorizeScope
  rw [Prog.bind_assoc]
  refine authenticate_attributed hid hnone (fun err => ?_) fun principal => ?_
  · simp only [auditRejectResponse, Prog.bind_assoc]
    refine (recordAudit_silent _ _ _ _ rfl).bind fun _ => hsilent _ ?_
    intro generator hbody
    unfold authErrorResponse at hbody
    split at hbody <;> cases hbody
  · simp only
    split
    · exact hok principal
    · simp only [auditReject, auditRejectResponse, Prog.bind_assoc]
      refine (recordAudit_keeps _ _ _ rfl).bind fun _ => (herr _ ?_).mono fun _ => False.elim
      intro generator hbody
      cases hbody

theorem supervisor_silent (p : WorkerProg α) : (supervisor p).All Silent :=
  (Prog.all_of_forall (P := fun _ => True) (fun _ => trivial) p).lift fun _ _ => trivial

theorem respond_returns {response : Response} (h : ∀ generator, response.body ≠ .stream generator) :
    Returns (respond response) := by
  obtain ⟨status, requestId, metadata, body⟩ := response
  cases body with
  | stream generator => exact absurd rfl (h generator)
  | _ => trivial

/-- A handler that opens with the drain check goes on with `p`. -/
theorem drained_attributed {r : R} {requestId : Nat} (hnone : m.principal = none) {p : ServerProg Response}
    (hp : ∀ l, Always (ledgered R st) (.request r) (Attributed routes (.request r)) (fun _ _ => True) (p >>= respond) (l, m)) :
    Always (ledgered R st) (.request r) (Attributed routes (.request r)) (fun _ _ => True)
      ((do
        match ← drainingResponse requestId with
        | some response => pure response
        | none => p) >>= respond) (l, m) := by
  have hidentity : (Proc.request r).identity routes m = none := by
    simp [Proc.identity, hnone]
  refine ⟨?_, fun (draining : Bool) g _ => ?_⟩
  · unfold Attributed
    rw [hidentity]
    exact .inl trivial
  · cases draining with
    | true => trivial
    | false => exact hp _

section
variable {r : R} {requestId : Nat} (hid : (routes r).requestId = some requestId) (hnone : m.principal = none)
include hid hnone

/-- Opens with the drain check and the clock, as the chat and embeddings handlers do. -/
theorem handler_attributed (action : String) {f : Nat → Except Response Principal → ServerProg Response}
    (herr : ∀ started response, f started (.error response) = pure response)
    (hok : ∀ started principal, Replies ⟨requestId, principal⟩ (f started (.ok principal))) :
    Always (ledgered R st) (.request r) (Attributed routes (.request r)) (fun _ _ => True)
      ((do
        match ← drainingResponse requestId with
        | some response => pure response
        | none =>
          let started ← op .instant
          let result ← authenticateWithChatScope requestId action
          f started result) >>= respond) (l, m) := by
  have hidentity : (Proc.request r).identity routes m = none := by
    simp [Proc.identity, hnone]
  refine drained_attributed hnone fun l => ?_
  refine ⟨?_, fun started g _ => ?_⟩
  · unfold Attributed
    rw [hidentity]
    exact .inl trivial
  · show Always _ _ _ _ ((authenticateWithChatScope requestId action >>= f started) >>= respond) _
    rw [Prog.bind_assoc, authenticateWithChatScope_eq]
    refine authorizeScope_attributed hid hnone _ _ _ (fun response hr => ?_) fun principal => (hok started principal).respond
    rw [herr]
    exact respond_returns hr

theorem chatCompletions_attributed {request : HttpRequest} (hrequest : request.requestId = requestId) :
    Always (ledgered R st) (.request r) (Attributed routes (.request r)) (fun _ _ => True)
      (chatCompletions st request >>= respond) (l, m) := by
  subst hrequest
  refine handler_attributed hid hnone "chat.completions" (fun _ _ => rfl) fun started principal => ?_
  simp only
  split
  · exact auditReject_replies _ _ _ _ _ _ rfl
  · split
    · rename_i err _
      refine auditRejectResponse_replies _ _ _ ?_ rfl
      cases err <;> trivial
    · exact guardChat_replies request principal started _ _

theorem nativeEmbeddings_attributed {request : HttpRequest} (hrequest : request.requestId = requestId) :
    Always (ledgered R st) (.request r) (Attributed routes (.request r)) (fun _ _ => True)
      (nativeEmbeddings st request >>= respond) (l, m) := by
  subst hrequest
  refine handler_attributed hid hnone "embeddings" (fun _ _ => rfl) fun started principal => ?_
  simp only
  split
  · exact auditReject_replies _ _ _ _ _ _ rfl
  · split
    · exact auditReject_replies _ _ _ _ _ _ rfl
    · split
      · rename_i err _
        refine auditRejectResponse_replies _ _ _ ?_ rfl
        cases err <;> trivial
      · exact serveEmbeddings_replies request principal started _ _

theorem adminSwap_attributed {request : AdminSwapRequest} (hrequest : request.requestId = requestId) :
    Always (ledgered R st) (.request r) (Attributed routes (.request r)) (fun _ _ => True)
      (adminSwap st request >>= respond) (l, m) := by
  subst hrequest
  unfold adminSwap
  rw [Prog.bind_assoc]
  refine authenticate_attributed hid hnone (fun err => ?_) fun principal => ?_
  · refine (respond_returns fun generator hbody => ?_).mono fun _ => False.elim
    unfold authErrorResponse at hbody
    split at hbody <;> cases hbody
  · apply Replies.respond
    simp only
    split
    · exact swapRejected_replies ..
    · split
      · exact swapRejected_replies ..
      · split
        · exact swapRejected_replies ..
        · refine Prog.Meets.op trivial fun _ => ?_
          refine (supervisor_keeps _).seq fun execution => Prog.Meets.op trivial fun _ => ?_
          exact (recordAudit_keeps _ _ _ rfl).seq fun _ => trivial

theorem listModels_attributed :
    Always (ledgered R st) (.request r) (Attributed routes (.request r)) (fun _ _ => True)
      (listModels st requestId >>= respond) (l, m) := by
  refine drained_attributed hnone fun l => ?_
  rw [Prog.bind_assoc]
  refine authorizeScope_attributed hid hnone _ _ _ (fun response hr => respond_returns hr) fun principal => ?_
  exact Replies.respond ((recordAudit_keeps _ _ _ rfl).seq fun _ => trivial)

theorem adminPage_attributed (page : AdminPage) (fields : Json) :
    Always (ledgered R st) (.request r) (Attributed routes (.request r)) (fun _ _ => True)
      (adminPage requestId page fields >>= respond) (l, m) := by
  unfold adminPage authorizeAdmin
  rw [Prog.bind_assoc, Prog.bind_assoc]
  refine authorizeScope_attributed hid hnone _ _ _ (fun response hr => respond_returns hr) fun principal => ?_
  simp only [Prog.bind_assoc]
  exact (recordAudit_keeps _ _ _ rfl).bind fun _ => trivial

theorem serveLocal_attributed {request : LocalRequest} (hrequest : request.requestId = requestId) (action : String)
    {detail : Json} (hdetail : detail.Keyless) (fields : Json) :
    Always (ledgered R st) (.request r) (Attributed routes (.request r)) (fun _ _ => True)
      (serveLocal request action detail fields >>= respond) (l, m) := by
  subst hrequest
  refine drained_attributed hnone fun l => ?_
  rw [Prog.bind_assoc]
  refine authenticate_attributed hid hnone (fun err => ?_) fun principal => ?_
  · refine (respond_returns fun generator hbody => ?_).mono fun _ => False.elim
    unfold authErrorResponse at hbody
    split at hbody <;> cases hbody
  · apply Replies.respond
    simp only
    split
    · refine (recordRequestLineageJoins_keeps _ _ _ _).seq fun _ => ?_
      exact (recordAudit_keeps _ _ _ hdetail).seq fun _ => trivial
    · trivial

end

theorem serve_attributed (r : R) (hnone : m.principal = none) :
    Always (ledgered R st) (.request r) (Attributed routes (.request r)) (fun _ _ => True) ((routes r).serve st) (l, m) := by
  have hidentity : (Proc.request r).identity routes m = none := by
    simp [Proc.identity, hnone]
  have hoperator : ∀ p : WorkerProg WorkerStatus,
      Always (ledgered R st) (.request r) (Attributed routes (.request r)) (fun _ _ => True) (underSupervisorLock p) (l, m) := by
    intro p
    have hp : (underSupervisorLock p).All Silent :=
      ⟨trivial, fun _ => (supervisor_silent p).bind fun _ => ⟨trivial, fun _ => trivial⟩⟩
    exact (silent_attributed hp hidentity).mono (fun _ _ h => h) fun _ _ _ => trivial
  cases hr : routes r with
  | served input =>
    cases input with
    | chat request => exact chatCompletions_attributed (by rw [hr]; rfl) hnone rfl
    | embeddings request => exact nativeEmbeddings_attributed (by rw [hr]; rfl) hnone rfl
    | swap request => exact adminSwap_attributed (by rw [hr]; rfl) hnone rfl
    | drain id => exact hoperator _
    | stop id => exact hoperator _
  | models requestId => exact listModels_attributed (by rw [hr]; rfl) hnone
  | admin requestId page fields => exact adminPage_attributed (by rw [hr]; rfl) hnone page fields
  | search request => exact serveLocal_attributed (by rw [hr]; rfl) hnone rfl _ rfl _
  | recommendations request => exact serveLocal_attributed (by rw [hr]; rfl) hnone rfl _ rfl _

theorem detachedTask_attributed (r : R) (hnone : m.job = none) :
    Always (ledgered R st) (.task r) (Attributed routes (.task r)) (fun _ _ => True) detachedTask (l, m) := by
  have hidentity : (Proc.task r).identity routes m = none := by
    simp [Proc.identity, hnone]
  refine Always.op ?_ fun (job : Job) g _ => ?_
  · unfold Attributed
    rw [hidentity]
    exact .inr (.inr rfl)
  · suffices hkeeps : Keeps job.identity _ from hkeeps.attributed rfl
    cases job with
    | decode context request => exact (streamTask_keeps context request).bind fun _ => trivial
    | disconnect data => exact (recordTerminal_keeps data streamDisconnectStatus).bind fun _ => trivial

end

theorem ledgeredStart_attributed (workers : Workers) :
    Typed (ledgered R st) (Attributed routes) (fun _ _ _ => True) (ledgeredStart st workers routes) := by
  intro i p hp
  cases i with
  | request r =>
    cases hp
    exact serve_attributed r rfl
  | task r =>
    cases hp
    exact detachedTask_attributed r rfl

/-! ## The invariant of a run -/

/-- The principal that `r` was authenticated as. -/
def authenticatedAs (c : LedgeredConf R) (r : R) : Option Principal := (c.loc (.request r)).2.principal

def authentication : Label ServerSig (Proc R) (ServerEvent R) → Option (R × Principal)
  | .answer (.request r) .authenticate (a : Result Principal) =>
    match a with
    | .ok principal => some (r, principal)
    | .error _ => none
  | _ => none

/-- No request is authenticated under another key than an earlier one of its request id. -/
def OneKey (routes : R → Route) (c : LedgeredConf R) (step : Label ServerSig (Proc R) (ServerEvent R)) : Prop :=
  ∀ x ∈ authentication step, ∀ r, (routes r).requestId = (routes x.1).requestId →
    ∀ earlier ∈ authenticatedAs c r, earlier.keyId = x.2.keyId

omit [DecidableEq R] in
instance [Fintype R] (c : LedgeredConf R) (step : Label ServerSig (Proc R) (ServerEvent R)) :
    Decidable (OneKey routes c step) :=
  inferInstanceAs (Decidable (∀ x ∈ authentication step, ∀ r, (routes r).requestId = (routes x.1).requestId →
    ∀ earlier ∈ authenticatedAs c r, earlier.keyId = x.2.keyId))

/-- Each row goes back to the process that wrote it, each hand-over to its request, and
identities of one request id have one key. -/
structure Booked (routes : R → Route) (loc : Proc R → Local × Ledger) (g : Server R) : Prop where
  usage : ∀ i : Proc R, ∀ e ∈ (loc i).1.trace.usage, ∃ who : Identity,
    i.identity routes (loc i).2 = some who ∧ e.requestId = who.requestId
  landed : ∀ e ∈ g.store.tables.usage, ∃ i, e ∈ (loc i).1.trace.usage
  audit : ∀ e ∈ g.store.tables.audit, ∀ requestId key, e.names requestId key → ∃ (i : Proc R) (who : Identity),
    i.identity routes (loc i).2 = some who ∧ who.requestId = requestId ∧ who.principal.keyId = some key
  guard : ∀ (i : Proc R) data, (loc i).1.holding.guard = some data → i.identity routes (loc i).2 = some data.identity
  jobs : ∀ r job, g.jobs r = some job → (Proc.request r).identity routes (loc (.request r)).2 = some job.identity
  task : ∀ r who, (Proc.task r).identity routes (loc (.task r)).2 = some who →
    (Proc.request r).identity routes (loc (.request r)).2 = some who
  oneKey : ∀ r r' who who', (Proc.request r).identity routes (loc (.request r)).2 = some who →
    (Proc.request r').identity routes (loc (.request r')).2 = some who' → who.requestId = who'.requestId →
    who.principal.keyId = who'.principal.keyId

section
variable {loc : Proc R → Local × Ledger} {g g' : Server R} {i : Proc R} {l : Local} {m : Ledger}

/-- What a step of `i` owes for the invariant to go on. -/
theorem Booked.update (h : Booked routes loc g)
    (hgrow : ∀ who, i.identity routes (loc i).2 = some who → i.identity routes m = some who)
    (husage : ∀ e ∈ l.trace.usage, e ∈ (loc i).1.trace.usage ∨
      ∃ who, i.identity routes m = some who ∧ e.requestId = who.requestId)
    (hsub : (loc i).1.trace.usage ⊆ l.trace.usage)
    (hlanded : ∀ e ∈ g'.store.tables.usage, e ∈ g.store.tables.usage ∨ e ∈ l.trace.usage)
    (haudit : ∀ e ∈ g'.store.tables.audit, e ∈ g.store.tables.audit ∨ ∀ requestId key, e.names requestId key →
      ∃ who, i.identity routes m = some who ∧ who.requestId = requestId ∧ who.principal.keyId = some key)
    (hguard : ∀ data, l.holding.guard = some data → i.identity routes m = some data.identity)
    (hjobs : ∀ r job, g'.jobs r = some job → g.jobs r = some job ∨
      i = .request r ∧ i.identity routes m = some job.identity)
    (htask : ∀ r who, i = .task r → i.identity routes m = some who →
      (Proc.request r).identity routes (loc (.request r)).2 = some who)
    (hkey : ∀ r r' who who', i = .request r → r' ≠ r → i.identity routes m = some who →
      (Proc.request r').identity routes (loc (.request r')).2 = some who' → who'.requestId = who.requestId →
      who'.principal.keyId = who.principal.keyId) :
    Booked routes (Function.update loc i (l, m)) g' := by
  have hmono : ∀ (j : Proc R) who, j.identity routes (loc j).2 = some who →
      j.identity routes (Function.update loc i (l, m) j).2 = some who := by
    intro j who hj
    by_cases hji : j = i
    · subst hji
      rw [Function.update_self]
      exact hgrow who hj
    · rw [Function.update_of_ne hji]
      exact hj
  have hself : i.identity routes (Function.update loc i (l, m) i).2 = i.identity routes m := by
    rw [Function.update_self]
  constructor
  · intro j e he
    by_cases hj : j = i
    · subst hj
      rw [Function.update_self] at he
      obtain hold | hnew := husage e he
      · obtain ⟨who, hwho, hid⟩ := h.usage j e hold
        exact ⟨who, hmono j who hwho, hid⟩
      · rw [hself]
        exact hnew
    · rw [Function.update_of_ne hj] at he ⊢
      exact h.usage j e he
  · intro e he
    obtain hold | hnew := hlanded e he
    · obtain ⟨j, hj⟩ := h.landed e hold
      refine ⟨j, ?_⟩
      by_cases hji : j = i
      · subst hji
        rw [Function.update_self]
        exact hsub hj
      · rw [Function.update_of_ne hji]
        exact hj
    · refine ⟨i, ?_⟩
      rw [Function.update_self]
      exact hnew
  · intro e he requestId key hnames
    obtain hold | hnew := haudit e he
    · obtain ⟨j, who, hwho, hrest⟩ := h.audit e hold requestId key hnames
      exact ⟨j, who, hmono j who hwho, hrest⟩
    · obtain ⟨who, hwho, hrest⟩ := hnew requestId key hnames
      exact ⟨i, who, hself.trans hwho, hrest⟩
  · intro j data hdata
    by_cases hj : j = i
    · subst hj
      rw [Function.update_self] at hdata
      exact hself.trans (hguard data hdata)
    · rw [Function.update_of_ne hj] at hdata
      exact hmono j _ (h.guard j data hdata)
  · intro r job hjob
    obtain hold | ⟨rfl, hnew⟩ := hjobs r job hjob
    · exact hmono _ _ (h.jobs r job hold)
    · exact hself.trans hnew
  · intro r who hwho
    by_cases hr : Proc.task r = i
    · subst hr
      exact hmono _ _ (htask r who rfl (hself.symm.trans hwho))
    · rw [Function.update_of_ne hr] at hwho
      exact hmono _ _ (h.task r who hwho)
  · intro r r' who who' hwho hwho' hid
    by_cases hr : Proc.request r = i <;> by_cases hr' : Proc.request r' = i
    · cases hr.trans hr'.symm
      cases hwho.symm.trans hwho'
      rfl
    · subst hr
      rw [Function.update_of_ne hr'] at hwho'
      have hne : r' ≠ r := fun e => hr' (e ▸ rfl)
      exact (hkey r r' who who' rfl hne (hself.symm.trans hwho) hwho' hid.symm).symm
    · subst hr'
      rw [Function.update_of_ne hr] at hwho
      have hne : r ≠ r' := fun e => hr (e ▸ rfl)
      exact hkey r' r who' who rfl hne (hself.symm.trans hwho') hwho hid
    · rw [Function.update_of_ne hr] at hwho
      rw [Function.update_of_ne hr'] at hwho'
      exact h.oneKey r r' who who' hwho hwho' hid

/-- A step that leaves everyone's identity as it is. -/
theorem Booked.record (h : Booked routes loc g)
    (husage : ∀ e ∈ l.trace.usage, e ∈ (loc i).1.trace.usage ∨
      ∃ who, i.identity routes (loc i).2 = some who ∧ e.requestId = who.requestId)
    (hsub : (loc i).1.trace.usage ⊆ l.trace.usage)
    (hlanded : ∀ e ∈ g'.store.tables.usage, e ∈ g.store.tables.usage ∨ e ∈ l.trace.usage)
    (haudit : ∀ e ∈ g'.store.tables.audit, e ∈ g.store.tables.audit ∨ ∀ requestId key, e.names requestId key →
      ∃ who, i.identity routes (loc i).2 = some who ∧ who.requestId = requestId ∧ who.principal.keyId = some key)
    (hguard : ∀ data, l.holding.guard = some data → i.identity routes (loc i).2 = some data.identity)
    (hjobs : ∀ r job, g'.jobs r = some job → g.jobs r = some job ∨
      i = .request r ∧ i.identity routes (loc i).2 = some job.identity) :
    Booked routes (Function.update loc i (l, (loc i).2)) g' := by
  refine h.update (fun _ hwho => hwho) husage hsub hlanded haudit hguard hjobs ?_ ?_
  · rintro r who rfl hwho
    exact h.task r who hwho
  · rintro r r' who who' rfl _ hwho hwho' hid
    exact h.oneKey r' r who' who hwho' hwho hid

/-- A step that writes no record, arms no guard and hands nothing over. -/
theorem Booked.frame (h : Booked routes loc g) (husage : l.trace.usage = (loc i).1.trace.usage)
    (htables : g'.store.tables.usage = g.store.tables.usage) (haudit : g'.store.tables.audit = g.store.tables.audit)
    (hguard : ∀ data, l.holding.guard = some data → i.identity routes (loc i).2 = some data.identity)
    (hjobs : g'.jobs = g.jobs) : Booked routes (Function.update loc i (l, (loc i).2)) g' := by
  refine h.record ?_ ?_ ?_ ?_ hguard ?_
  · rw [husage]
    exact fun e he => .inl he
  · rw [husage]
    exact List.Subset.refl _
  · rw [htables]
    exact fun e he => .inl he
  · rw [haudit]
    exact fun e he => .inl he
  · rw [hjobs]
    exact fun r job hjob => .inl hjob

omit [DecidableEq R] in
theorem Attributed.records {o : ServerOp} {lm : Local × Ledger} (h : Attributed routes i o lm) (hsilent : ¬ Silent o)
    (hauth : o ≠ .authenticate) (hstart : o ≠ .task .start) :
    ∃ who, i.identity routes lm.2 = some who ∧ who.Records o := by
  unfold Attributed at h
  split at h
  · rename_i who hwho
    exact ⟨who, hwho, h⟩
  · exact absurd h (by simp [hsilent, hauth, hstart])

theorem booked_store (h : Booked routes loc g) {o : StoreOp} {a : StoreSig.Ans o}
    (hattr : Attributed routes i (.store o) (loc i)) :
    Booked routes (Function.update loc i ((ledgered R st).loc i (.store o) a (loc i)))
      ((ledgered R st).sh i (.store o) a (loc i) g) := by
  cases o with
  | insertUsageEvent e =>
    obtain ⟨who, hwho, hid⟩ := hattr.records id (by simp) (by simp)
    cases a with
    | error err => exact h.frame rfl rfl rfl (h.guard i) rfl
    | ok _ =>
      refine h.record (fun e' he' => ?_) (List.subset_append_left _ _) (fun e' he' => ?_) (fun _ he' => .inl he')
        (h.guard i) fun _ _ hjob => .inl hjob
      · obtain hold | hnew := List.mem_append.mp he'
        · exact .inl hold
        · cases List.mem_singleton.mp hnew
          exact .inr ⟨who, hwho, hid⟩
      · obtain hold | hnew := List.mem_append.mp he'
        · exact .inl hold
        · exact .inr (List.mem_append_right _ hnew)
  | insertAuditEvent e =>
    cases a with
    | error err => exact h.frame rfl rfl rfl (h.guard i) rfl
    | ok _ =>
      refine h.record (fun _ he' => .inl he') (List.Subset.refl _) (fun _ he' => .inl he') (fun e' he' => ?_)
        (h.guard i) fun _ _ hjob => .inl hjob
      obtain hold | hnew := List.mem_append.mp he'
      · exact .inl hold
      · cases List.mem_singleton.mp hnew
        refine .inr fun requestId key hnames => ?_
        have hloud : ¬ Silent (.store (.insertAuditEvent e)) := by
          show ¬ e.apiKeyId = none
          rw [hnames.2]
          exact Option.some_ne_none key
        obtain ⟨who, hwho, hid, hkey⟩ := hattr.records hloud (by simp) (by simp)
        refine ⟨who, hwho, Option.some.inj (hid.symm.trans hnames.1), ?_⟩
        rw [← hkey, hnames.2]
  | insertQuotaDecision row => cases a <;> exact h.frame rfl rfl rfl (h.guard i) rfl
  | insertRequestLineageJoin row => cases a <;> exact h.frame rfl rfl rfl (h.guard i) rfl
  | _ => exact h.frame rfl rfl rfl (h.guard i) rfl

theorem booked_body (h : Booked routes loc g) {o : BodyOp} {a : ServerSig.Ans (.body o)}
    (hattr : Attributed routes i (.body o) (loc i)) :
    Booked routes (Function.update loc i ((ledgered R st).loc i (.body o) a (loc i)))
      ((ledgered R st).sh i (.body o) a (loc i) g) := by
  refine h.frame rfl rfl rfl ?_ rfl
  cases o with
  | arm data =>
    obtain ⟨who, hwho, hid⟩ := hattr.records id (by simp) (by simp)
    rintro data' ⟨⟩
    rw [hwho, ← show data.identity = who from hid]
  | updateCounts input output =>
    intro data' hdata
    obtain ⟨data, hold, rfl⟩ := Option.map_eq_some_iff.mp hdata
    exact h.guard i data hold
  | disarm => exact fun _ hdata => by cases hdata
  | _ => exact h.guard i

theorem booked_task (h : Booked routes loc g) {o : TaskOp} {a : ServerSig.Ans (.task o)}
    (hattr : Attributed routes i (.task o) (loc i))
    (hc : (ledgered R st).can i (.task o) a (loc i) g = true) :
    Booked routes (Function.update loc i ((ledgered R st).loc i (.task o) a (loc i)))
      ((ledgered R st).sh i (.task o) a (loc i) g) := by
  cases o with
  | spawn job =>
    obtain ⟨who, hwho, hid⟩ := hattr.records id (by simp) (by simp)
    refine h.record (fun _ he => .inl he) (List.Subset.refl _) (fun _ he => .inl he) (fun _ he => .inl he)
      (h.guard i) fun r job' hjob => ?_
    cases i with
    | task r' => exact .inl hjob
    | request r' =>
      by_cases hr : r = r'
      · subst hr
        have hjob' : Function.update g.jobs r (some job) r = some job' := hjob
        rw [Function.update_self] at hjob'
        cases hjob'
        exact .inr ⟨rfl, by rw [hwho, ← show job.identity = who from hid]⟩
      · have hjob' : Function.update g.jobs r' (some job) r = some job' := hjob
        rw [Function.update_of_ne hr] at hjob'
        exact .inl hjob'
  | start =>
    cases i with
    | request r =>
      refine h.update (m := { (loc (.request r)).2 with job := some a }) (fun _ hwho => hwho) (fun _ he => .inl he)
        (List.Subset.refl _) (fun _ he => .inl he) (fun _ he => .inl he) (h.guard _) (fun _ _ hjob => .inl hjob) ?_ ?_
      · exact fun _ _ hi => by cases hi
      · rintro r₁ r' who who' ⟨⟩ _ hwho hwho' hid
        exact h.oneKey r' r who' who hwho' hwho hid
    | task r =>
      have hjob : g.jobs r = some a := by simpa [World.observe, serverWorld, ServerOp.can, Server.job] using hc
      have hnone : (Proc.task r).identity routes (loc (.task r)).2 = none := by
        unfold Attributed at hattr
        split at hattr
        · exact hattr.elim
        · assumption
      refine h.update (m := { (loc (.task r)).2 with job := some a }) (fun who hwho => ?_) (fun _ he => .inl he)
        (List.Subset.refl _) (fun _ he => .inl he) (fun _ he => .inl he) (fun data hdata => ?_) (fun r' job hjob' => ?_) ?_ ?_
      · rw [hnone] at hwho
        cases hwho
      · have hguard := h.guard (.task r) data hdata
        rw [hnone] at hguard
        cases hguard
      · have hjobs : Function.update g.jobs r none r' = some job := hjob'
        by_cases hr : r' = r
        · subst hr
          rw [Function.update_self] at hjobs
          cases hjobs
        · rw [Function.update_of_ne hr] at hjobs
          exact .inl hjobs
      · rintro r' who ⟨⟩ hwho
        cases hwho
        exact h.jobs r a hjob
      · exact fun _ _ _ _ hi => by cases hi
  | recvToken => exact h.frame rfl rfl rfl (h.guard i) rfl
  | recvClosed => exact h.frame rfl rfl rfl (h.guard i) rfl
  | recvFinal => exact h.frame rfl rfl rfl (h.guard i) rfl

theorem booked_authenticate {c : LedgeredConf R} (h : Booked routes c.loc c.sh) {a : Result Principal}
    (hattr : Attributed routes i .authenticate (c.loc i)) (hok : OneKey routes c (.answer i .authenticate a)) :
    Booked routes (Function.update c.loc i ((ledgered R st).loc i .authenticate a (c.loc i)))
      ((ledgered R st).sh i .authenticate a (c.loc i) c.sh) := by
  cases a with
  | error err => exact h.frame rfl rfl rfl (h.guard i) rfl
  | ok principal =>
    cases i with
    | task r =>
      refine h.update (m := { (c.loc (.task r)).2 with principal := some principal }) (fun _ hwho => hwho)
        (fun _ he => .inl he) (List.Subset.refl _) (fun _ he => .inl he) (fun _ he => .inl he) (h.guard _)
        (fun _ _ hjob => .inl hjob) ?_ ?_
      · rintro r' who ⟨⟩ hwho
        exact h.task r who hwho
      · exact fun _ _ _ _ hi => by cases hi
    | request r =>
      have hnone : (Proc.request r).identity routes (c.loc (.request r)).2 = none := by
        unfold Attributed at hattr
        split at hattr
        · exact hattr.elim
        · assumption
      refine h.update (m := { (c.loc (.request r)).2 with principal := some principal }) (fun who hwho => ?_)
        (fun _ he => .inl he) (List.Subset.refl _) (fun _ he => .inl he) (fun _ he => .inl he) (fun data hdata => ?_)
        (fun _ _ hjob => .inl hjob) ?_ ?_
      · rw [hnone] at hwho
        cases hwho
      · have hguard := h.guard (.request r) data hdata
        rw [hnone] at hguard
        cases hguard
      · exact fun _ _ hi => by cases hi
      · rintro r₁ r' who who' ⟨⟩ hne hwho hwho' hid
        obtain ⟨requestId, hrequest, hp⟩ := Option.bind_eq_some_iff.mp hwho
        cases hp
        obtain ⟨requestId', hrequest', hp'⟩ := Option.bind_eq_some_iff.mp hwho'
        obtain ⟨earlier, hearlier, rfl⟩ := Option.map_eq_some_iff.mp hp'
        refine hok (r, principal) rfl r' ?_ earlier hearlier
        rw [hrequest, hrequest']
        exact congrArg some hid

theorem booked_answer {c : LedgeredConf R} (h : Booked routes c.loc c.sh) {o : ServerOp} {a : ServerSig.Ans o}
    (hattr : Attributed routes i o (c.loc i)) (hok : OneKey routes c (.answer i o a))
    (hc : (ledgered R st).can i o a (c.loc i) c.sh = true) :
    Booked routes (Function.update c.loc i ((ledgered R st).loc i o a (c.loc i)))
      ((ledgered R st).sh i o a (c.loc i) c.sh) := by
  cases o with
  | store o => exact booked_store h hattr
  | body o => exact booked_body h hattr
  | task o => exact booked_task h hattr hc
  | authenticate => exact booked_authenticate h hattr hok
  | _ => exact h.frame rfl rfl rfl (h.guard i) rfl

theorem booked_drop {c : LedgeredConf R} (h : Booked routes c.loc c.sh) (o : ServerOp) :
    Booked routes (Function.update c.loc i ((ledgered R st).dropLoc i o (c.loc i)))
      ((ledgered R st).dropSh i o (c.loc i) c.sh) := by
  have htables : (c.sh.drop i o (c.loc i).1).store.tables = c.sh.store.tables := by
    cases o <;> rfl
  refine h.record (fun _ he => .inl he) (List.Subset.refl _) (fun e he => .inl (htables ▸ he))
    (fun e he => .inl (htables ▸ he)) (fun _ hdata => by cases hdata) fun r job hjob => ?_
  have hjobs : (c.sh.drop i o (c.loc i).1).jobs r = some job := hjob
  cases hguard : (c.loc i).1.holding.guard with
  | none =>
    simp only [Server.drop, hguard] at hjobs
    exact .inl hjobs
  | some data =>
    simp only [Server.drop, hguard] at hjobs
    cases i with
    | task r' => exact .inl hjobs
    | request r' =>
      simp only [TaskOp.jobs] at hjobs
      by_cases hr : r = r'
      · subst hr
        rw [Function.update_self] at hjobs
        cases hjobs
        exact .inr ⟨rfl, h.guard _ data hguard⟩
      · rw [Function.update_of_ne hr] at hjobs
        exact .inl hjobs

theorem booked_reach {workers : Workers} {c : LedgeredConf R}
    (hr : Reach (ledgered R st) (OneKey routes) (ledgeredStart st workers routes) c) : Booked routes c.loc c.sh := by
  refine (ledgeredStart_attributed workers).pool (J := Booked routes) ?_ ?_ ?_ ?_ hr
  · constructor
    · exact fun i e he => by cases he
    · exact fun e he => by cases he
    · exact fun e he => by cases he
    · exact fun i data hdata => by cases hdata
    · exact fun r job hjob => by cases hjob
    · exact fun r who hwho => by cases hwho
    · intro r r' who who' hwho
      obtain ⟨requestId, _, hp⟩ := Option.bind_eq_some_iff.mp hwho
      cases hp
  · exact fun c i o a h hattr hok hc => booked_answer h hattr hok hc
  · exact fun c i o h _ _ _ => booked_drop h o
  · intro c e h _ _
    show Booked routes c.loc (e.apply c.sh)
    rw [e.apply_eq]
    exact ⟨h.usage, h.landed, h.audit, h.guard, h.jobs, h.task, h.oneKey⟩

omit [DecidableEq R] in
/-- What a process acts for, its request was authenticated as. -/
theorem Booked.owner (h : Booked routes loc g) {i : Proc R} {who : Identity}
    (hwho : i.identity routes (loc i).2 = some who) :
    (Proc.request i.owner).identity routes (loc (.request i.owner)).2 = some who := by
  cases i with
  | request r => exact hwho
  | task r => exact h.task r who hwho

end

/-- The usage rows that `r` has landed, by itself or by its detached task. -/
def landed (c : LedgeredConf R) (r : R) : List UsageEvent :=
  (c.loc (.request r)).1.trace.usage ++ (c.loc (.task r)).1.trace.usage

omit [DecidableEq R] in
theorem mem_landed {c : LedgeredConf R} {r : R} {e : UsageEvent} :
    e ∈ landed c r ↔ ∃ i : Proc R, i.owner = r ∧ e ∈ (c.loc i).1.trace.usage := by
  constructor
  · intro he
    obtain he | he := List.mem_append.mp he
    · exact ⟨.request r, rfl, he⟩
    · exact ⟨.task r, rfl, he⟩
  · rintro ⟨i, rfl, he⟩
    cases i with
    | request r => exact List.mem_append_left _ he
    | task r => exact List.mem_append_right _ he

/-- Every request that landed the row of `record` was authenticated with its key, and
there is one. -/
def Billed (c : LedgeredConf R) (record : ApiKeyUsageRecord) : Prop :=
  ∃ event metadata, record = apiKeyUsageRecord metadata event ∧ (∃ r, event ∈ landed c r) ∧
    ∀ r, event ∈ landed c r → (authenticatedAs c r).bind (·.keyId) = some record.apiKeyId

/-- Where no request is authenticated under another key than an earlier one of its id, a
report bills every row to the key of its request. The report may read the audit rows
before the usage rows, and retention may have taken some. -/
theorem usage_billed (st : ServerState) (workers : Workers) (routes : R → Route) {c : LedgeredConf R}
    (hr : Reach (ledgered R st) (OneKey routes) (ledgeredStart st workers routes) c) {t : Tables}
    (haudit : t.audit ⊆ c.sh.store.tables.audit) (husage : t.usage ⊆ c.sh.store.tables.usage) (from_ to_ : Int)
    {record : ApiKeyUsageRecord} (hrecord : record ∈ t.apiKeyUsageBetween from_ to_) : Billed c record := by
  have h := booked_reach hr
  obtain ⟨event, hevent, metadata, rfl, audit, hin, hnames⟩ := mem_apiKeyUsageBetween hrecord
  obtain ⟨j, payer, hpayer, hpaid, hkey⟩ := h.audit audit (haudit hin) _ _ hnames
  refine ⟨event, metadata, rfl, ?_, fun r hlanded => ?_⟩
  · obtain ⟨i, hi⟩ := h.landed event (husage hevent)
    exact ⟨i.owner, mem_landed.mpr ⟨i, rfl, hi⟩⟩
  · obtain ⟨i, rfl, hi⟩ := mem_landed.mp hlanded
    obtain ⟨who, hwho, hid⟩ := h.usage i event hi
    have howner := h.owner hwho
    have hsame := h.oneKey _ _ _ _ howner (h.owner hpayer) (hid.symm.trans hpaid.symm)
    obtain ⟨requestId, _, hp⟩ := Option.bind_eq_some_iff.mp howner
    obtain ⟨principal, hprincipal, rfl⟩ := Option.map_eq_some_iff.mp hp
    show Option.bind (c.loc (.request i.owner)).2.principal _ = some metadata.apiKeyId
    rw [hprincipal, ← hkey, ← hsame]
    rfl

end

/-! ## Two tenants -/

def keyed (keyId : String) : Surroundings where
  principal := .ok { subject := keyId, team := "", scopes := ["chat"], keyId := some keyId }

/-- One request after the other, each with a key of its own. -/
def twoTenants : List (ServerChoice Bool) :=
  (Proc.request true).turns oneModelNode (keyed "k1") 28 ++ (Proc.request false).turns oneModelNode (keyed "k2") 28

/-- The second tenant sends the request id of the first: its usage is billed to the first. -/
theorem shared_id_misbilled : ∃ c, Reach (ledgered Bool oneModelNode) (fun _ _ => True)
    (ledgeredStart oneModelNode {} fun _ => .served (chatInput 7 "")) c ∧
    ∃ record ∈ c.sh.store.tables.apiKeyUsageBetween 0 1000, ¬ Billed c record := by
  have hrun : ∃ c, Reach (ledgered Bool oneModelNode) (fun _ _ => True)
      (ledgeredStart oneModelNode {} fun _ => .served (chatInput 7 "")) c ∧
      (∃ record ∈ c.sh.store.tables.apiKeyUsageBetween 0 1000, record.apiKeyId = "k1" ∧ record.actor = "k2") ∧
      (∀ e ∈ landed c true, e.actor = "k1") ∧ (authenticatedAs c false).bind (·.keyId) = some "k2" := by
    refine Conf.exists_reach twoTenants ?_
    decide +kernel
  obtain ⟨c, hr, ⟨record, hrecord, hkey, hactor⟩, hfirst, hsecond⟩ := hrun
  refine ⟨c, hr, record, hrecord, ?_⟩
  rintro ⟨event, metadata, rfl, ⟨r, hr⟩, hbilled⟩
  have hevent : event.actor = "k2" := hactor
  cases r with
  | true =>
    rw [hfirst event hr] at hevent
    exact absurd hevent (by decide)
  | false =>
    have hfalse := hbilled false hr
    rw [hsecond, hkey] at hfalse
    exact absurd hfalse (by decide)

theorem usage_billed_two_tenants : ∃ c, Reach (ledgered Bool oneModelNode)
    (OneKey fun r => .served (chatInput (if r then 7 else 8) ""))
    (ledgeredStart oneModelNode {} fun r => .served (chatInput (if r then 7 else 8) "")) c ∧
    ∃ record ∈ c.sh.store.tables.apiKeyUsageBetween 0 1000, record.apiKeyId = "k2" ∧ Billed c record := by
  have hrun : ∃ c, Reach (ledgered Bool oneModelNode) (OneKey fun r => .served (chatInput (if r then 7 else 8) ""))
      (ledgeredStart oneModelNode {} fun r => .served (chatInput (if r then 7 else 8) "")) c ∧
      ∃ record ∈ c.sh.store.tables.apiKeyUsageBetween 0 1000, record.apiKeyId = "k2" := by
    refine Conf.exists_reach twoTenants ?_
    decide +kernel
  obtain ⟨c, hr, record, hrecord, hkey⟩ := hrun
  exact ⟨c, hr, record, hrecord, hkey,
    usage_billed oneModelNode {} _ hr (List.Subset.refl _) (List.Subset.refl _) 0 1000 hrecord⟩

end Llmctl
