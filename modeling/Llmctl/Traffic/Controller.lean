import Mathlib.Algebra.Ring.Nat
import Llmctl.Async.Registry
import Llmctl.Async.World

/-!
# The admission controller under threads

`try_acquire_for_all` takes one permit after the other, and looks each scope's
semaphore up in a map that other threads change and prune meanwhile. Threads
interleave between its atomic steps; a permit may be dropped by any thread.
-/

namespace Llmctl.Admission

open Async

def scopedAdmissionMaxTracked : Nat := 4096

/-- `Semaphore::MAX_PERMITS` of a 64-bit target; a larger semaphore panics. -/
def maxPermits : Nat := 2 ^ 61 - 1

/-! ## Operations -/

/-- A permit is named by the call that got it, a semaphore by its number. -/
inductive AdmissionOp (ι : Type) where
  | tryGlobal
  | lockScopes
  | retain
  | entry (scope : String) (limit : Nat)
  | unlockScopes
  | tryAcquire (sem : Nat)
  | addPermit (sem : Nat)
  | dropArc (sem : Nat)
  | addGlobal
  | handOut (sems : List Nat)
  | take (permit : ι)

/-- `lockScopes` answers whether the lock is sound, `retain` with the scopes that it
removes, and `entry` with nothing where the new semaphore panics. -/
@[reducible] def AdmissionSig (ι : Type) : Sig where
  Op := AdmissionOp ι
  Ans
    | .tryGlobal | .lockScopes | .tryAcquire _ => Bool
    | .retain => List String
    | .entry _ _ => Option Nat
    | .take _ => List Nat
    | _ => Unit

section
variable {ι : Type}

abbrev AdmissionProg (ι : Type) := Prog (AdmissionSig ι)

/-! ## The controller -/

def dropScoped : List Nat → AdmissionProg ι Unit
  | [] => pure ()
  | sem :: sems => do
    Prog.op (S := AdmissionSig ι) (.addPermit sem)
    Prog.op (S := AdmissionSig ι) (.dropArc sem)
    dropScoped sems

def scopedSemaphore (scope : String) (limit : Nat) : AdmissionProg ι (Option Nat) := do
  if ← Prog.op (S := AdmissionSig ι) .lockScopes then
    let _ ← Prog.op (S := AdmissionSig ι) .retain
    let sem ← Prog.op (S := AdmissionSig ι) (.entry scope limit)
    Prog.op (S := AdmissionSig ι) .unlockScopes
    pure sem
  else pure none

/-- The permits of `scopes` after those in `acquired`, which are dropped where one of
them is not to be had. -/
def acquireScopes (acquired : List Nat) : List (String × Nat) → AdmissionProg ι (Option (List Nat))
  | [] => pure (some acquired)
  | (scope, limit) :: scopes => do
    match ← scopedSemaphore scope limit with
    | none =>
      dropScoped acquired
      pure none
    | some sem =>
      if ← Prog.op (S := AdmissionSig ι) (.tryAcquire sem) then acquireScopes (acquired ++ [sem]) scopes
      else
        Prog.op (S := AdmissionSig ι) (.dropArc sem)
        dropScoped acquired
        pure none

/-- How a call has ended. -/
inductive Ended where
  | admitted
  | busy
  | dropped
  deriving DecidableEq, Repr

def tryAcquireForAll (scopes : List (String × Nat)) : AdmissionProg ι Ended := do
  if ← Prog.op (S := AdmissionSig ι) .tryGlobal then
    match ← acquireScopes [] scopes with
    | some acquired =>
      Prog.op (S := AdmissionSig ι) (.handOut acquired)
      pure .admitted
    | none =>
      Prog.op (S := AdmissionSig ι) .addGlobal
      pure .busy
  else pure .busy

/-- The fields of an `AdmissionPermit` are dropped in their order. -/
def dropPermit (permit : ι) : AdmissionProg ι Ended := do
  let sems ← Prog.op (S := AdmissionSig ι) (.take permit)
  Prog.op (S := AdmissionSig ι) .addGlobal
  dropScoped sems
  pure .dropped

inductive AdmissionCall (ι : Type) where
  | tryAcquireForAll (scopes : List (String × Nat))
  | dropPermit (permit : ι)

def AdmissionCall.prog : AdmissionCall ι → AdmissionProg ι Ended
  | .tryAcquireForAll scopes => Admission.tryAcquireForAll scopes
  | .dropPermit permit => Admission.dropPermit permit

end

/-! ## The state -/

/-- What the thread of a call owns: a global permit, semaphore references, and scoped
permits, each with the reference inside it. `got` keeps the semaphores that it looked
up, with the scope and the limit it asked for. -/
structure Owns where
  global : Bool := false
  arcs : List Nat := []
  permits : List Nat := []
  got : List (Nat × String × Nat) := []
  returned : Bool := false
  deriving DecidableEq

/-- `limits` keeps what each semaphore was created with, and `live` the permits that
calls have returned and nobody has dropped. -/
structure Controller (ι : Type) where
  global : Nat
  scopes : Registry String
  limits : Nat → Nat
  available : Nat → Nat
  locked : Bool
  poisoned : Bool
  live : ι → Option (List Nat)

def Controller.new (ι : Type) (maxInFlight : Nat) : Controller ι where
  global := max maxInFlight 1
  scopes := .empty
  limits _ := 0
  available _ := 0
  locked := false
  poisoned := false
  live _ := none

namespace AdmissionOp

variable {ι : Type}

/-- The semaphore of `scope`, with a reference for the caller. -/
def entrySh (scope : String) (limit : Nat) (g : Controller ι) : Controller ι :=
  let (sem, scopes) := g.scopes.entry scope
  match g.scopes.find scope with
  | some _ => { g with scopes }
  | none =>
    { g with
      scopes
      limits := Function.update g.limits sem (max limit 1)
      available := Function.update g.available sem (max limit 1) }

def can (g : Controller ι) : (o : AdmissionOp ι) → (AdmissionSig ι).Ans o → Bool
  | .tryGlobal, a => a == decide (0 < g.global)
  | .lockScopes, a => !g.locked && a == !g.poisoned
  -- the counts are read one by one: an entry read early may have lost its last reference since
  | .retain, pruned => g.scopes.canRetain scopedAdmissionMaxTracked pruned
  | .entry scope limit, a =>
    if (g.scopes.find scope).isNone && decide (maxPermits < limit) then a == none
    else a == some (g.scopes.entry scope).1
  | .tryAcquire sem, a => a == decide (0 < g.available sem)
  | .take permit, sems => g.live permit == some sems
  | _, _ => true

def loc : (o : AdmissionOp ι) → (AdmissionSig ι).Ans o → Owns → Owns
  | .tryGlobal, a, l => { l with global := a }
  | .entry scope limit, some sem, l => { l with arcs := sem :: l.arcs, got := l.got ++ [(sem, scope, limit)] }
  | .tryAcquire sem, true, l => { l with arcs := l.arcs.erase sem, permits := l.permits ++ [sem] }
  | .addPermit sem, _, l => { l with arcs := sem :: l.arcs, permits := l.permits.erase sem }
  | .dropArc sem, _, l => { l with arcs := l.arcs.erase sem }
  | .addGlobal, _, l => { l with global := false }
  | .handOut _, _, l => { got := l.got, returned := true }
  | .take _, sems, l => { l with global := true, permits := sems }
  | _, _, l => l

def sh [DecidableEq ι] (i : ι) : (o : AdmissionOp ι) → (AdmissionSig ι).Ans o → Controller ι → Controller ι
  | .tryGlobal, true, g => { g with global := g.global - 1 }
  | .lockScopes, true, g => { g with locked := true }
  | .retain, pruned, g => { g with scopes := g.scopes.retain pruned }
  | .entry scope limit, some _, g => entrySh scope limit g
  | .entry _ _, none, g => { g with poisoned := true }
  | .unlockScopes, _, g => { g with locked := false }
  | .tryAcquire sem, true, g => { g with available := Function.update g.available sem (g.available sem - 1) }
  | .addPermit sem, _, g => { g with available := Function.update g.available sem (g.available sem + 1) }
  | .dropArc sem, _, g => { g with scopes := g.scopes.release sem }
  | .addGlobal, _, g => { g with global := g.global + 1 }
  | .handOut sems, _, g => { g with live := Function.update g.live i (some sems) }
  | .take permit, _, g => { g with live := Function.update g.live permit none }
  | _, _, g => g

end AdmissionOp

section
variable (ι : Type) [DecidableEq ι]

def admissionWorld : World (AdmissionSig ι) ι Owns (Controller ι) Empty where
  can _ o a _ g := o.can g a
  loc _ o a l := o.loc a l
  sh i o a _ g := o.sh i a g
  canDrop _ _ := false
  dropLoc _ _ l := l
  dropSh _ _ _ g := g
  canEnv e _ := e.elim
  env e _ := e.elim

end

abbrev AdmissionConf (ι : Type) := Conf (AdmissionSig ι) Ended ι Owns (Controller ι)

def admissionStart {ι : Type} (maxInFlight : Nat) (calls : ι → AdmissionCall ι) : AdmissionConf ι where
  prog i := some (calls i).prog
  loc _ := {}
  sh := .new ι maxInFlight

end Llmctl.Admission
