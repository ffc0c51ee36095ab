import Llmctl.Async.Registry
import Llmctl.Store

/-!
# The table of admission locks

`Store` locks a scope in one step. Here the lock is an object that a call looks up in a
table behind a mutex, waits for through its own reference and lets go of again, while
other calls look up, make and prune. A call can be dropped at every await.
-/

namespace Llmctl

open Async

def quotaAdmissionLockMaxTracked : Nat := 4096

/-! ## Operations -/

inductive LockOp (C : Sig) where
  | lockTable
  | retain
  | entry (scope : String)
  | unlockTable
  | lockOwned
  | unlock
  | dropArc
  | closure (o : C.Op)
  | other (o : StoreOp)

/-- `retain` answers with the scopes that it removes, `entry` with the lock's number. -/
@[reducible] def LockSig (C : Sig) : Sig where
  Op := LockOp C
  Ans
    | .retain => List String
    | .entry _ => Nat
    | .closure o => C.Ans o
    | .other o => StoreSig.Ans o
    | _ => Unit

abbrev LockProg (C : Sig) := Prog (LockSig C)

section
variable {C : Sig}

def scopedAdmissionLock (scope : String) : LockProg C Unit := do
  Prog.op (S := LockSig C) .lockTable
  let _ ← Prog.op (S := LockSig C) .retain
  let _ ← Prog.op (S := LockSig C) (.entry scope)
  Prog.op (S := LockSig C) .unlockTable

/-- The local lock of `Store`, with its object in hand; the guard unlocks before it drops
its reference. -/
def StoreOp.locks : (o : StoreOp) → LockProg C (StoreSig.Ans o)
  | .lockLocal scope => do
    scopedAdmissionLock scope
    Prog.op (S := LockSig C) .lockOwned
  | .unlockLocal _ => do
    Prog.op (S := LockSig C) .unlock
    Prog.op (S := LockSig C) .dropArc
  | o => Prog.op (S := LockSig C) (.other o)

/-- `Storage::with_quota_admission` around a closure of any operations. -/
def Storage.lockedQuotaAdmission {α : Type} (st : Storage) (scope : String) (f : Prog C (Result α)) :
    LockProg C (Result α) := do
  match ← (st.quotaAdmissionGuard scope).interp StoreOp.locks with
  | .error err => pure (.error err)
  | .ok _ =>
    let result ← f.lift (T := LockSig C) LockOp.closure fun _ a => a
    let _ ← (st.release scope).interp StoreOp.locks
    pure result

end

/-! ## The state -/

/-- What one call owns: a reference to a lock, and whether the lock itself is its own. -/
structure LockOwner where
  arc : Option Nat := none
  guard : Bool := false
  deriving DecidableEq

/-- `dropping` counts, for each lock, the references of dropped calls that are not given
up yet. -/
structure Locks where
  locks : Registry String := .empty
  locked : Nat → Bool := fun _ => false
  table : Bool := false
  dropping : Nat → Nat := fun _ => 0

inductive LockEvent where
  | dropArc (lock : Nat)

namespace LockOp

variable {C : Sig}

def can (l : LockOwner) (g : Locks) : (o : LockOp C) → (LockSig C).Ans o → Bool
  | .lockTable, _ => !g.table
  | .retain, pruned => g.locks.canRetain quotaAdmissionLockMaxTracked pruned
  | .entry scope, lock => decide (lock = (g.locks.entry scope).1)
  | .lockOwned, _ => l.arc.all fun lock => !g.locked lock
  | _, _ => true

def loc : (o : LockOp C) → (LockSig C).Ans o → LockOwner → LockOwner
  | .entry _, (lock : Nat), l => { l with arc := some lock }
  | .lockOwned, _, l => { l with guard := true }
  | .unlock, _, l => { l with guard := false }
  | .dropArc, _, l => { l with arc := none }
  | _, _, l => l

def unlockSh (l : LockOwner) (g : Locks) : Locks :=
  match l.guard, l.arc with
  | true, some lock => { g with locked := Function.update g.locked lock false }
  | _, _ => g

def sh : (o : LockOp C) → (LockSig C).Ans o → LockOwner → Locks → Locks
  | .lockTable, _, _, g => { g with table := true }
  | .retain, pruned, _, g => { g with locks := g.locks.retain pruned }
  | .entry scope, _, _, g => { g with locks := (g.locks.entry scope).2 }
  | .unlockTable, _, _, g => { g with table := false }
  | .lockOwned, _, l, g =>
    match l.arc with
    | some lock => { g with locked := Function.update g.locked lock true }
    | none => g
  | .unlock, _, l, g => unlockSh l g
  | .dropArc, _, l, g =>
    match l.arc with
    | some lock => { g with locks := g.locks.release lock }
    | none => g
  | _, _, _, g => g

def isAwait : LockOp C → Bool
  | .lockOwned | .closure _ => true
  | .other o => o.isAwait
  | _ => false

/-- A dropped call unlocks what it holds; its reference goes a step later. -/
def dropSh (l : LockOwner) (g : Locks) : Locks :=
  let g := unlockSh l g
  match l.arc with
  | some lock => { g with dropping := Function.update g.dropping lock (g.dropping lock + 1) }
  | none => g

end LockOp

namespace LockEvent

def can (g : Locks) : LockEvent → Bool
  | .dropArc lock => decide (0 < g.dropping lock)

def sh : LockEvent → Locks → Locks
  | .dropArc lock, g =>
    { g with locks := g.locks.release lock, dropping := Function.update g.dropping lock (g.dropping lock - 1) }

end LockEvent

/-- Concurrent admissions on one table, each of which may be cancelled. -/
def lockWorld (C : Sig) (ι : Type) : World (LockSig C) ι LockOwner Locks LockEvent where
  can _ o a l g := o.can l g a
  loc _ o a l := o.loc a l
  sh _ o a l g := o.sh a l g
  canDrop _ o := o.isAwait
  dropLoc _ _ _ := {}
  dropSh _ _ l g := LockOp.dropSh l g
  canEnv e g := e.can g
  env e g := e.sh g

abbrev LockConf (C : Sig) (ι α : Type) := Conf (LockSig C) (Result α) ι LockOwner Locks

def lockStart {C : Sig} {ι α : Type} (st : Storage) (scope : ι → String) (f : ι → Prog C (Result α)) :
    LockConf C ι α where
  prog i := some (st.lockedQuotaAdmission (scope i) (f i))
  loc _ := {}
  sh := {}

/-- `i`'s closure has begun and is not done. -/
def LockConf.running {C : Sig} {ι α : Type} (c : LockConf C ι α) (i : ι) : Bool :=
  match c.pending i with
  | some (.closure _) => true
  | _ => false

end Llmctl
