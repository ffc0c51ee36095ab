import Mathlib.Algebra.Order.Ring.Int
import Llmctl.Async.World

/-!
# The storage

The tables that the server's decisions rest on, the connection pool in front of
them, and the guard around one quota admission. Times are nanoseconds of UTC.
-/

namespace Llmctl

open Async

abbrev Result (α : Type) := Except String α

theorem ok_of_bind {α β : Type} {x : Result α} {f : α → Result β} {b : β} (h : (x >>= f) = .ok b) :
    ∃ a, x = .ok a ∧ f a = .ok b := by
  cases x with
  | error e => cases h
  | ok a => exact ⟨a, rfl, h⟩

abbrev Json := List (String × String)

/-! ## Rows -/

structure Principal where
  subject : String
  team : String
  scopes : List String
  keyId : Option String := none
  keyOwner : Option String := none
  keyPurpose : Option String := none
  keyStatus : Option String := none
  deriving DecidableEq, Repr

def Principal.anonymous : Principal where
  subject := "anonymous"
  team := "public"
  scopes := ["chat", "models.read"]

def Principal.hasScope (p : Principal) (scope : String) : Bool :=
  p.scopes.any fun s => s == scope || s == "admin" || (scope.startsWith "models." && s == "models") ||
    (scope.startsWith "chat." && s == "chat")

structure QuotaDecision where
  allowed : Bool
  reason : String
  deriving DecidableEq, Repr

structure QuotaDecisionRecord where
  requestId : Option Nat
  at_ : Int
  actor : String
  team : String
  model : String
  allowed : Bool
  reason : String
  policyJson : Json
  deriving DecidableEq, Repr

def QuotaDecisionRecord.new (requestId : Option Nat) (principal : Principal) (model : String)
    (decision : QuotaDecision) (policyJson : Json) (now : Int) : QuotaDecisionRecord where
  requestId := requestId
  at_ := now
  actor := principal.subject
  team := principal.team
  model := model
  allowed := decision.allowed
  reason := decision.reason
  policyJson := policyJson

structure UsageEvent where
  requestId : Nat
  at_ : Int
  model : String
  actor : String
  team : String
  inputTokens : Nat
  outputTokens : Nat
  latencyMs : Nat
  status : String
  deriving DecidableEq, Repr

structure AuditEvent where
  requestId : Option Nat
  at_ : Int
  actor : String
  team : String
  action : String
  resource : String
  outcome : String
  detailJson : Json
  deriving DecidableEq, Repr

structure RequestLineageJoinRecord where
  requestId : Nat
  at_ : Int
  lineageId : String
  model : Option String
  corpus : Option String
  source : String
  deriving DecidableEq, Repr

/-! ## Operations -/

inductive SqlDialect where
  | sqlite
  | postgres
  deriving DecidableEq, Repr

structure Storage where
  dialect : SqlDialect
  maxConnections : Nat
  advisoryLockKeyForScope : String → Int

/-- What `Storage` awaits or reads, one step each. A query is `acquireQuery`, the
statement, `finishQuery`: its row is there before the caller hears of it. -/
inductive StoreOp where
  | lockLocal (scope : String)
  | unlockLocal (scope : String)
  | acquireGuard
  | advisoryLock (key : Int)
  | advisoryUnlock (key : Int)
  | returnGuard
  | detachGuard
  | acquireQuery
  | allowedQuotaDecisionCount (principal : Principal) (subjectScoped : Bool) (from_ to_ : Int)
  | usageTokensTotal (principal : Principal) (subjectScoped : Bool) (from_ to_ : Int)
  | insertQuotaDecision (decision : QuotaDecisionRecord)
  | insertUsageEvent (event : UsageEvent)
  | insertAuditEvent (event : AuditEvent)
  | insertRequestLineageJoin (record : RequestLineageJoinRecord)
  | finishQuery
  | now

@[reducible] def StoreSig : Sig where
  Op := StoreOp
  Ans
    | .lockLocal _ | .unlockLocal _ | .returnGuard | .detachGuard | .finishQuery => Unit
    | .acquireGuard | .advisoryLock _ | .advisoryUnlock _ | .acquireQuery => Result Unit
    | .allowedQuotaDecisionCount .. | .usageTokensTotal .. => Result Nat
    | .insertQuotaDecision _ | .insertUsageEvent _ | .insertAuditEvent _ => Result Unit
    | .insertRequestLineageJoin _ => Result Unit
    | .now => Int

abbrev StoreProg := Prog StoreSig

namespace Storage

def query {α : Type} (statement : StoreProg (Result α)) : StoreProg (Result α) := do
  match ← Prog.op (S := StoreSig) .acquireQuery with
  | .error err => pure (.error err)
  | .ok _ =>
    let answer ← statement
    let _ ← Prog.op (S := StoreSig) .finishQuery
    pure answer

def insertQuotaDecision (decision : QuotaDecisionRecord) : StoreProg (Result Unit) :=
  query (Prog.op (S := StoreSig) (.insertQuotaDecision decision))

def allowedQuotaDecisionCount (principal : Principal) (subjectScoped : Bool) (from_ to_ : Int) :
    StoreProg (Result Nat) :=
  query (Prog.op (S := StoreSig) (.allowedQuotaDecisionCount principal subjectScoped from_ to_))

def usageTokensTotal (principal : Principal) (subjectScoped : Bool) (from_ to_ : Int) :
    StoreProg (Result Nat) :=
  query (Prog.op (S := StoreSig) (.usageTokensTotal principal subjectScoped from_ to_))

def insertUsageEvent (event : UsageEvent) : StoreProg (Result Unit) :=
  query (Prog.op (S := StoreSig) (.insertUsageEvent event))

def insertAuditEvent (event : AuditEvent) : StoreProg (Result Unit) :=
  query (Prog.op (S := StoreSig) (.insertAuditEvent event))

def insertRequestLineageJoin (record : RequestLineageJoinRecord) : StoreProg (Result Unit) :=
  query (Prog.op (S := StoreSig) (.insertRequestLineageJoin record))

/-! ## The quota admission guard -/

/-- Takes the lock of `scope`; on an error the local lock is dropped again. -/
def quotaAdmissionGuard (st : Storage) (scope : String) : StoreProg (Result Unit) := do
  let _ ← Prog.op (S := StoreSig) (.lockLocal scope)
  match st.dialect with
  | .sqlite => pure (.ok ())
  | .postgres =>
    match ← Prog.op (S := StoreSig) .acquireGuard with
    | .error err =>
      let _ ← Prog.op (S := StoreSig) (.unlockLocal scope)
      pure (.error err)
    | .ok _ =>
      match ← Prog.op (S := StoreSig) (.advisoryLock (st.advisoryLockKeyForScope scope)) with
      | .error err =>
        let _ ← Prog.op (S := StoreSig) .returnGuard
        let _ ← Prog.op (S := StoreSig) (.unlockLocal scope)
        pure (.error err)
      | .ok _ => pure (.ok ())

/-- Its error is only logged by the caller. -/
def release (st : Storage) (scope : String) : StoreProg Unit := do
  match st.dialect with
  | .sqlite => pure ()
  | .postgres =>
    match ← Prog.op (S := StoreSig) (.advisoryUnlock (st.advisoryLockKeyForScope scope)) with
    | .ok _ =>
      let _ ← Prog.op (S := StoreSig) .returnGuard
    | .error _ =>
      -- The session still holds the lock: closing it releases the lock.
      let _ ← Prog.op (S := StoreSig) .detachGuard
  let _ ← Prog.op (S := StoreSig) (.unlockLocal scope)

def withQuotaAdmission {α : Type} (st : Storage) (scope : String) (f : StoreProg (Result α)) :
    StoreProg (Result α) := do
  match ← st.quotaAdmissionGuard scope with
  | .error err => pure (.error err)
  | .ok _ =>
    let result ← f
    st.release scope
    pure result

end Storage

/-! ## The world of the storage -/

structure Held where
  lock : Option String := none
  guard : Bool := false
  advisory : Option Int := none
  query : Bool := false
  deriving DecidableEq, Repr

/-- A count that `checkQuota` read: the rows of the subject or of the team in the
minute before `to_`. -/
structure Reading where
  subjectScoped : Bool
  to_ : Int
  admitted : Nat
  deriving DecidableEq, Repr

structure Seen where
  now : Option Int := none
  readings : List Reading := []
  inserted : Option QuotaDecisionRecord := none
  deriving DecidableEq, Repr

structure Call where
  held : Held := {}
  seen : Seen := {}
  deriving DecidableEq, Repr

structure Tables where
  decisions : List QuotaDecisionRecord := []
  usage : List UsageEvent := []
  audit : List AuditEvent := []
  lineage : List RequestLineageJoinRecord := []
  deriving DecidableEq, Repr

/-- What all calls share; `connections` counts those checked out of the pool. -/
structure Shared where
  locked : String → Bool := fun _ => false
  connections : Nat := 0
  advisory : Int → Bool := fun _ => false
  tables : Tables := {}
  clock : Int := 0

def quotaRow (principal : Principal) (subjectScoped : Bool) (r : QuotaDecisionRecord) : Bool :=
  r.allowed && if subjectScoped then r.actor == principal.subject else r.team == principal.team

def Tables.allowedQuotaDecisionCount (t : Tables) (principal : Principal) (subjectScoped : Bool)
    (from_ to_ : Int) : Nat :=
  t.decisions.countP fun r =>
    quotaRow principal subjectScoped r && decide (from_ ≤ r.at_) && decide (r.at_ < to_)

def Tables.usageTokensTotal (t : Tables) (principal : Principal) (subjectScoped : Bool)
    (from_ to_ : Int) : Nat :=
  ((t.usage.filter fun e => decide (from_ ≤ e.at_) && decide (e.at_ < to_) &&
      if subjectScoped then e.actor == principal.subject else e.team == principal.team).map
    fun e => e.inputTokens + e.outputTokens).sum

namespace StoreOp

/-- When an answer can come. A lock answers once it is free and a pool once a
connection is: waiting is what these calls do, not failing. -/
def can (st : Storage) (g : Shared) : (o : StoreOp) → StoreSig.Ans o → Bool
  | .lockLocal s, _ => !g.locked s
  | .acquireGuard, _ | .acquireQuery, _ => decide (g.connections < st.maxConnections)
  | .advisoryLock k, _ => !g.advisory k
  | .allowedQuotaDecisionCount p b t₁ t₂, .ok n => n == g.tables.allowedQuotaDecisionCount p b t₁ t₂
  | .usageTokensTotal p b t₁ t₂, .ok n => n == g.tables.usageTokensTotal p b t₁ t₂
  | .now, (t : Int) => decide (g.clock < t)
  | _, _ => true

def held : (o : StoreOp) → StoreSig.Ans o → Held → Held
  | .lockLocal s, _, h => { h with lock := some s }
  | .unlockLocal _, _, h => { h with lock := none }
  | .acquireGuard, .ok _, h => { h with guard := true }
  | .advisoryLock k, .ok _, h => { h with advisory := some k }
  | .advisoryUnlock _, .ok _, h => { h with advisory := none }
  | .returnGuard, _, h => { h with guard := false }
  | .detachGuard, _, h => { h with guard := false, advisory := none }
  | .acquireQuery, .ok _, h => { h with query := true }
  | .finishQuery, _, h => { h with query := false }
  | _, _, h => h

def seen : (o : StoreOp) → StoreSig.Ans o → Seen → Seen
  | .now, t, s => { s with now := some t }
  | .allowedQuotaDecisionCount _ b _ t₂, .ok n, s => { s with readings := s.readings ++ [⟨b, t₂, n⟩] }
  | .insertQuotaDecision r, .ok _, s => { s with inserted := some r }
  | _, _, s => s

def loc (o : StoreOp) (a : StoreSig.Ans o) (l : Call) : Call where
  held := o.held a l.held
  seen := o.seen a l.seen

def tables : (o : StoreOp) → StoreSig.Ans o → Tables → Tables
  | .insertQuotaDecision r, .ok _, t => { t with decisions := t.decisions ++ [r] }
  | .insertUsageEvent e, .ok _, t => { t with usage := t.usage ++ [e] }
  | .insertAuditEvent e, .ok _, t => { t with audit := t.audit ++ [e] }
  | .insertRequestLineageJoin r, .ok _, t => { t with lineage := t.lineage ++ [r] }
  | _, _, t => t

def sh (o : StoreOp) (a : StoreSig.Ans o) (h : Held) (g : Shared) : Shared where
  locked := match o with
    | .lockLocal s => Function.update g.locked s true
    | .unlockLocal s => Function.update g.locked s false
    | _ => g.locked
  connections := match o, a with
    | .acquireGuard, .ok _ | .acquireQuery, .ok _ => g.connections + 1
    | .returnGuard, _ | .detachGuard, _ | .finishQuery, _ => g.connections - 1
    | _, _ => g.connections
  advisory := match o, a with
    | .advisoryLock k, .ok _ => Function.update g.advisory k true
    | .advisoryUnlock k, .ok _ => Function.update g.advisory k false
    | .detachGuard, _ =>
      match h.advisory with
      | some k => Function.update g.advisory k false
      | none => g.advisory
    | _, _ => g.advisory
  tables := o.tables a g.tables
  clock := match o, a with
    | .now, t => t
    | _, _ => g.clock

/-- The suspension points; at `finishQuery` the statement's answer is on its way back. -/
def isAwait : StoreOp → Bool
  | .unlockLocal _ | .returnGuard | .now => false
  | _ => true

/-- What is left of a call that is dropped at `o`: its local lock is freed and its
connections are given back. -/
def dropSh (o : StoreOp) (h : Held) (g : Shared) : Shared where
  locked := match h.lock with
    | some s => Function.update g.locked s false
    | none => g.locked
  connections := g.connections - (if h.guard then 1 else 0) - (if h.query then 1 else 0)
  advisory := match o, h.advisory with
    -- `release` has taken the connection out of the guard: it goes back to the pool as it is
    | .advisoryUnlock _, _ => g.advisory
    | _, some k => Function.update g.advisory k false
    | _, none => g.advisory
  tables := g.tables
  clock := g.clock

end StoreOp

def StoreOp.answer (g : Shared) : (o : StoreOp) → StoreSig.Ans o
  | .lockLocal _ | .unlockLocal _ | .returnGuard | .detachGuard | .finishQuery => ()
  | .acquireGuard | .advisoryLock _ | .advisoryUnlock _ | .acquireQuery => .ok ()
  | .allowedQuotaDecisionCount p b t₁ t₂ => .ok (g.tables.allowedQuotaDecisionCount p b t₁ t₂)
  | .usageTokensTotal p b t₁ t₂ => .ok (g.tables.usageTokensTotal p b t₁ t₂)
  | .insertQuotaDecision _ | .insertUsageEvent _ | .insertAuditEvent _ => .ok ()
  | .insertRequestLineageJoin _ => .ok ()
  | .now => g.clock + 1

/-- Concurrent calls of one storage, none of them cancelled. -/
def storeWorld (ι : Type) (st : Storage) : World StoreSig ι Call Shared Empty where
  can _ o a _ g := o.can st g a
  loc _ o a l := o.loc a l
  sh _ o a l g := o.sh a l.held g
  canDrop _ _ := false
  dropLoc _ _ l := l
  dropSh _ _ _ g := g
  canEnv _ _ := false
  env _ g := g

end Llmctl
