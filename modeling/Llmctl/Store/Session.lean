import Llmctl.Store

/-!
# Connections and sessions

`Store` counts the pool's connections. Here each one is a Postgres session of its
own, an admission can be dropped at every await, and what its connection becomes
then depends on the variable that owns it: a plain one goes back to the pool, one
inside the guard is detached and closed.
-/

namespace Llmctl

open Async

/-! ## Operations -/

inductive LockQuery where
  | lock (key : Int)
  | unlock (key : Int)
  deriving DecidableEq

/-- A query is two awaits: `statement` lasts until the server has executed it, and
`response` until the caller has heard its answer. -/
inductive SessionOp (C : Sig) where
  | lockLocal (scope : String)
  | unlockLocal (scope : String)
  | acquire
  | statement (query : LockQuery)
  | response (query : LockQuery) (answer : Result Unit)
  | intoGuard
  | takeFromGuard
  | dropConnection
  | detach
  | close
  | closure (o : C.Op)
  | other (o : StoreOp)

@[reducible] def SessionSig (C : Sig) : Sig where
  Op := SessionOp C
  Ans
    | .acquire => Result Nat
    | .statement _ => Result Unit
    | .closure o => C.Ans o
    | .other o => StoreSig.Ans o
    | _ => Unit

abbrev SessionProg (C : Sig) := Prog (SessionSig C)

section
variable {C : Sig}

def execute (query : LockQuery) : SessionProg C (Result Unit) := do
  let answer ← Prog.op (S := SessionSig C) (.statement query)
  let _ ← Prog.op (S := SessionSig C) (.response query answer)
  pure answer

/-- The guard's operations of `Store`, with its connection in hand. -/
def StoreOp.session : (o : StoreOp) → SessionProg C (StoreSig.Ans o)
  | .lockLocal scope => Prog.op (S := SessionSig C) (.lockLocal scope)
  | .unlockLocal scope => Prog.op (S := SessionSig C) (.unlockLocal scope)
  | .acquireGuard => do
    match ← Prog.op (S := SessionSig C) .acquire with
    | .error err => pure (.error err)
    | .ok _ => pure (.ok ())
  | .advisoryLock key => do
    match ← execute (.lock key) with
    | .error err => pure (.error err)
    | .ok _ =>
      let _ ← Prog.op (S := SessionSig C) .intoGuard
      pure (.ok ())
  | .advisoryUnlock key => do
    let _ ← Prog.op (S := SessionSig C) .takeFromGuard
    execute (.unlock key)
  | .returnGuard => Prog.op (S := SessionSig C) .dropConnection
  | .detachGuard => do
    let _ ← Prog.op (S := SessionSig C) .detach
    Prog.op (S := SessionSig C) .close
  | o => Prog.op (S := SessionSig C) (.other o)

namespace Storage

variable {α : Type}

/-- `Storage::with_quota_admission` around a closure of any operations. -/
def sessionQuotaAdmission (st : Storage) (scope : String) (f : Prog C (Result α)) : SessionProg C (Result α) := do
  match ← (st.quotaAdmissionGuard scope).interp StoreOp.session with
  | .error err => pure (.error err)
  | .ok _ =>
    let result ← f.lift (T := SessionSig C) SessionOp.closure fun _ a => a
    let _ ← (st.release scope).interp StoreOp.session
    pure result

end Storage

end

/-! ## The pool and the server -/

/-- `lent` connections are those of the closures' queries and of everything else that
uses the pool; none of these takes an advisory lock. -/
inductive ConnState where
  | unopened
  | idle
  | guarding
  | lent
  | ended
  deriving DecidableEq

/-- Who holds an advisory lock: a session of this pool, so many times, or one of
another client. -/
inductive Holder where
  | session (conn : Nat) (times : Nat)
  | foreign
  deriving DecidableEq

structure Sessions where
  locked : String → Bool
  conns : Nat → ConnState
  opened : Nat
  holder : Int → Option Holder

namespace Sessions

def move (g : Sessions) (conn : Nat) (s : ConnState) : Sessions :=
  { g with conns := Function.update g.conns conn s }

/-- A session that ends gives up its advisory locks. -/
def endSession (g : Sessions) (conn : Nat) : Sessions where
  locked := g.locked
  conns := Function.update g.conns conn .ended
  opened := g.opened - 1
  holder key :=
    match g.holder key with
    | some (.session conn' times) => if conn' = conn then none else some (.session conn' times)
    | h => h

/-- `pg_advisory_lock` waits while another session has the key and counts up when its
own has it. -/
def canLock (g : Sessions) (conn : Nat) (key : Int) : Bool :=
  match g.holder key with
  | none => true
  | some (.session conn' _) => decide (conn' = conn)
  | some .foreign => false

def lock (g : Sessions) (conn : Nat) (key : Int) : Sessions :=
  let times := match g.holder key with
    | some (.session _ times) => times + 1
    | _ => 1
  { g with holder := Function.update g.holder key (some (.session conn times)) }

/-- `pg_advisory_unlock` of a key that the session does not have only warns. -/
def unlock (g : Sessions) (conn : Nat) (key : Int) : Sessions :=
  match g.holder key with
  | some (.session conn' times) =>
    if conn' = conn then
      { g with
        holder := Function.update g.holder key
          (if times ≤ 1 then none else some (.session conn (times - 1))) }
    else g
  | _ => g

end Sessions

/-- What one admission owns: its connection, whether that is inside the
`QuotaAdmissionGuard`, and the key that the connection's session got for it. -/
structure Owning where
  lock : Option String := none
  conn : Option Nat := none
  inGuard : Bool := false
  key : Option Int := none
  deriving DecidableEq

/-- What others do with the pool and the locks. -/
inductive PoolEvent where
  | lend (conn : Nat)
  | giveBack (conn : Nat)
  | close (conn : Nat)
  | foreignLock (key : Int)
  | foreignUnlock (key : Int)

namespace SessionOp

variable {C : Sig}

/-- The pool hands out an idle connection or opens one. -/
def canAcquire (st : Storage) (g : Sessions) (conn : Nat) : Bool :=
  match g.conns conn with
  | .idle => true
  | .unopened => decide (g.opened < st.maxConnections)
  | _ => false

def can (st : Storage) (l : Owning) (g : Sessions) : (o : SessionOp C) → (SessionSig C).Ans o → Bool
  | .lockLocal s, _ => !g.locked s
  | .acquire, .ok conn => canAcquire st g conn
  | .statement (.lock key), .ok _ => l.conn.all fun conn => g.canLock conn key
  | _, _ => true

def loc : (o : SessionOp C) → (SessionSig C).Ans o → Owning → Owning
  | .lockLocal s, _, l => { l with lock := some s }
  | .unlockLocal _, _, l => { l with lock := none }
  | .acquire, .ok conn, l => { l with conn := some conn }
  | .statement (.lock key), .ok _, l => { l with key := some key }
  | .statement (.unlock _), .ok _, l => { l with key := none }
  | .intoGuard, _, l => { l with inGuard := true }
  | .takeFromGuard, _, l => { l with inGuard := false }
  | .dropConnection, _, l | .detach, _, l => { l with conn := none, key := none }
  | _, _, l => l

/-- A plain `PoolConnection` that goes out of scope. -/
def dropPlain (l : Owning) (g : Sessions) : Sessions :=
  match l.conn with
  | some conn => g.move conn .idle
  | none => g

/-- The connection no longer belongs to the pool and its session ends. -/
def dropDetached (l : Owning) (g : Sessions) : Sessions :=
  match l.conn with
  | some conn => g.endSession conn
  | none => g

def sh : (o : SessionOp C) → (SessionSig C).Ans o → Owning → Sessions → Sessions
  | .lockLocal s, _, _, g => { g with locked := Function.update g.locked s true }
  | .unlockLocal s, _, _, g => { g with locked := Function.update g.locked s false }
  | .acquire, .ok conn, _, g =>
    { g.move conn .guarding with opened := if g.conns conn = .unopened then g.opened + 1 else g.opened }
  | .statement (.lock key), .ok _, l, g =>
    match l.conn with
    | some conn => g.lock conn key
    | none => g
  | .statement (.unlock key), .ok _, l, g =>
    match l.conn with
    | some conn => g.unlock conn key
    | none => g
  | .dropConnection, _, l, g => dropPlain l g
  | .detach, _, l, g => dropDetached l g
  | _, _, _, g => g

def isAwait : SessionOp C → Bool
  | .lockLocal _ | .acquire | .statement _ | .response _ _ | .close | .closure _ | .other _ => true
  | _ => false

/-- A dropped future drops what it owns: the guard's `Drop` detaches its connection,
a plain one goes back to the pool. -/
def dropSh (l : Owning) (g : Sessions) : Sessions :=
  let g := if l.inGuard then dropDetached l g else dropPlain l g
  match l.lock with
  | some s => { g with locked := Function.update g.locked s false }
  | none => g

end SessionOp

namespace PoolEvent

def can (st : Storage) (g : Sessions) : PoolEvent → Bool
  | .lend conn => SessionOp.canAcquire st g conn
  | .giveBack conn => decide (g.conns conn = .lent)
  | .close conn => decide (g.conns conn = .idle)
  | .foreignLock key => decide (g.holder key = none)
  | .foreignUnlock key => decide (g.holder key = some .foreign)

def sh : PoolEvent → Sessions → Sessions
  | .lend conn, g =>
    { g.move conn .lent with opened := if g.conns conn = .unopened then g.opened + 1 else g.opened }
  | .giveBack conn, g => g.move conn .idle
  | .close conn, g => g.endSession conn
  | .foreignLock key, g => { g with holder := Function.update g.holder key (some .foreign) }
  | .foreignUnlock key, g => { g with holder := Function.update g.holder key none }

end PoolEvent

/-- Concurrent admissions on one pool, each of which may be cancelled. -/
def sessionWorld (C : Sig) (ι : Type) (st : Storage) : World (SessionSig C) ι Owning Sessions PoolEvent where
  can _ o a l g := o.can st l g a
  loc _ o a l := o.loc a l
  sh _ o a l g := o.sh a l g
  canDrop _ o := o.isAwait
  dropLoc _ _ _ := {}
  dropSh _ _ l g := SessionOp.dropSh l g
  canEnv e g := e.can st g
  env e g := e.sh g

abbrev SessionConf (C : Sig) (ι α : Type) := Conf (SessionSig C) (Result α) ι Owning Sessions

def sessionStart {C : Sig} {ι α : Type} (st : Storage) (scope : ι → String) (f : ι → Prog C (Result α))
    (g : Sessions) : SessionConf C ι α where
  prog i := some (st.sessionQuotaAdmission (scope i) (f i))
  loc _ := {}
  sh := g

end Llmctl
