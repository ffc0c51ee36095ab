import Llmctl.Cli.Config
import Llmctl.Store

/-!
# Authentication

A request presents its API key in a header; `authenticateRequest` counts the failures of
its source and turns it away unread once there are too many within a minute. SHA-256 and
the hex digits of its digest are a parameter.
-/

namespace Llmctl

open Async

/-! ## Headers -/

abbrev HeaderValue := List UInt8

/-- The names are in lower case. -/
abbrev HeaderMap := List (String × HeaderValue)

namespace HeaderMap

def getAll (headers : HeaderMap) (name : String) : List HeaderValue :=
  (headers.filter fun h => h.1 = name).map (·.2)

def get (headers : HeaderMap) (name : String) : Option HeaderValue := (headers.getAll name).head?

end HeaderMap

def isVisibleAscii (b : UInt8) : Bool := (32 ≤ b && b < 127) || b == 9

/-- The text of a value, unless it has a byte that is not visible ASCII. -/
def HeaderValue.toStr (v : HeaderValue) : Option (List Char) :=
  if v.all isVisibleAscii then some (v.map fun b => Char.ofNat b.toNat) else none

/-! ## Credentials -/

structure SecurityConfig where
  requireAuth : Bool
  authFailureLimitPerMinute : UInt32
  trustedProxies : List String
  apiKeys : List Cli.ApiKeyConfig
  deriving DecidableEq, Repr

def apiKeyCanAuthenticate (key : Cli.ApiKeyConfig) (now : Int) : Bool :=
  (key.status == "active" || key.status == "retiring") && key.expiresAt.all fun expiresAt => decide (now < expiresAt)

def constantTimeEqCaseInsensitive (left right : String) : Bool :=
  left.utf8ByteSize == right.utf8ByteSize && left.toLower == right.toLower

def Principal.ofApiKey (key : Cli.ApiKeyConfig) : Principal where
  subject := key.subject
  team := key.team
  scopes := key.scopes
  keyId := some key.id
  keyOwner := key.owner
  keyPurpose := key.purpose
  keyStatus := some key.status

section
variable (sha256 : String → String)

def authenticate (cfg : SecurityConfig) (now : Int) (headers : HeaderMap) : Result Principal :=
  if !cfg.requireAuth then .ok .anonymous
  else
    match (headers.get "authorization").bind HeaderValue.toStr with
    | none => .error "missing bearer token"
    | some header =>
      match "Bearer ".toList.isPrefixOf header with
      | false => .error "authorization must use Bearer token"
      | true =>
        let digest := sha256 (String.ofList (header.drop 7))
        match (cfg.apiKeys.filter (apiKeyCanAuthenticate · now)).find? fun key =>
            constantTimeEqCaseInsensitive key.sha256 digest with
        | some key => .ok (.ofApiKey key)
        | none => .error "invalid bearer token"

def authFailureKey (sourceKey : String) : String := String.ofList ((sha256 sourceKey).toList.take 16)

/-! ## Requests -/

/-- The instants at which a critical section of the limiter reads the clock: to prune and
for a new window, for the age of the window, and for its restart. -/
structure Reads where
  inserted : Nat
  elapsed : Nat
  restart : Nat
  deriving DecidableEq

/-- The instant of an evaluation, and the time that keys are checked against. -/
structure Evaluation where
  instant : Nat
  utc : Int
  deriving DecidableEq

/-- Each is one critical section of the limiter, or one evaluation of a credential. -/
inductive AuthOp where
  | isLimited (key : String) (limit : UInt32)
  | authenticate (headers : HeaderMap)
  | recordFailure (key : String) (limit : UInt32)
  | recordSuccess (key : String)

/-- `recordFailure` answers with the keys whose windows it prunes. -/
@[reducible] def AuthSig : Sig where
  Op := AuthOp
  Ans
    | .isLimited _ _ => Reads × Bool
    | .authenticate _ => Evaluation
    | .recordFailure _ _ => Reads × List String
    | .recordSuccess _ => Unit

abbrev AuthProg := Prog AuthSig

namespace AuthFailureLimiter

def isLimited (key : String) (limit : UInt32) : AuthProg Bool := do
  if limit = 0 then pure false
  else
    let answer ← Prog.op (S := AuthSig) (.isLimited key limit)
    pure answer.2

def recordFailure (key : String) (limit : UInt32) : AuthProg Unit := do
  if limit = 0 then pure ()
  else
    let _ ← Prog.op (S := AuthSig) (.recordFailure key limit)
    pure ()

end AuthFailureLimiter

def authenticateRequest (cfg : SecurityConfig) (headers : HeaderMap) (sourceKey : String) :
    AuthProg (Result Principal) := do
  let key := authFailureKey sha256 sourceKey
  if ← AuthFailureLimiter.isLimited key cfg.authFailureLimitPerMinute then
    pure (.error "too many failed authentication attempts; retry later")
  else
    let evaluation ← Prog.op (S := AuthSig) (.authenticate headers)
    match authenticate sha256 cfg evaluation.utc headers with
    | .ok principal =>
      let _ ← Prog.op (S := AuthSig) (.recordSuccess key)
      pure (.ok principal)
    | .error err =>
      AuthFailureLimiter.recordFailure key cfg.authFailureLimitPerMinute
      pure (.error err)

end

/-! ## The limiter -/

def authFailureMaxTracked : Nat := 8192

/-- A minute of an `Instant`, in nanoseconds. -/
def authWindow : Nat := 60 * 1000000000

structure AuthFailureWindow where
  started : Nat
  count : UInt32
  deriving DecidableEq

abbrev AuthFailures := List (String × AuthFailureWindow)

namespace AuthFailures

def get (failures : AuthFailures) (key : String) : Option AuthFailureWindow :=
  (failures.find? fun e => e.1 = key).map (·.2)

def remove (failures : AuthFailures) (key : String) : AuthFailures := failures.filter fun e => e.1 ≠ key

def insert (failures : AuthFailures) (key : String) (w : AuthFailureWindow) : AuthFailures :=
  (key, w) :: failures.remove key

def prune (failures : AuthFailures) (pruned : List String) : AuthFailures := failures.filter fun e => e.1 ∉ pruned

end AuthFailures

namespace AuthFailureWindow

def stale (w : AuthFailureWindow) (now : Nat) : Bool := decide (authWindow ≤ now - w.started)

def restarted (w : AuthFailureWindow) (r : Reads) : AuthFailureWindow :=
  if w.stale r.elapsed then ⟨r.restart, 0⟩ else w

/-- One failure more, `saturating_add`. -/
def failed (w : AuthFailureWindow) : AuthFailureWindow :=
  { w with count := UInt32.ofNat (min (w.count.toNat + 1) (2 ^ 32 - 1)) }

end AuthFailureWindow

/-- `prune_stale_auth_windows` reads the clock for each window. -/
def AuthFailures.canPrune (failures : AuthFailures) (now : Nat) (pruned : List String) : Bool :=
  decide ((failures.length < authFailureMaxTracked → pruned = []) ∧
    ∀ e ∈ failures, e.1 ∈ pruned → e.2.count = 0 ∨ e.2.stale now = true)

structure Throttle where
  failures : AuthFailures := []
  clock : Nat := 0

/-- What a call has done so far: passed the check, evaluated its credential at an instant
and recorded the outcome. -/
structure AuthAttempt where
  key : String
  passed : Bool := false
  evaluated : Option Nat := none
  recorded : Bool := false
  deriving DecidableEq

namespace AuthOp

def canRead (g : Throttle) (r : Reads) : Bool :=
  decide (g.clock ≤ r.inserted ∧ r.inserted ≤ r.elapsed ∧ r.elapsed ≤ r.restart)

def can (g : Throttle) : (o : AuthOp) → AuthSig.Ans o → Bool
  | .isLimited key limit, (r, limited) =>
    canRead g r &&
      limited == (g.failures.get key).any fun w => decide (limit ≤ (w.restarted r).count)
  | .authenticate _, (e : Evaluation) => decide (g.clock ≤ e.instant)
  | .recordFailure _ _, (r, pruned) => canRead g r && g.failures.canPrune r.inserted pruned
  | .recordSuccess _, _ => true

def loc : (o : AuthOp) → AuthSig.Ans o → AuthAttempt → AuthAttempt
  | .isLimited _ _, (_, limited), l => { l with passed := !limited }
  | .authenticate _, (e : Evaluation), l => { l with evaluated := some e.instant }
  | .recordFailure _ _, _, l | .recordSuccess _, _, l => { l with recorded := true }

def sh : (o : AuthOp) → AuthSig.Ans o → Throttle → Throttle
  | .isLimited key _, (r, _), g =>
    { failures := match g.failures.get key with
        | some w => g.failures.insert key (w.restarted r)
        | none => g.failures
      clock := r.restart }
  | .authenticate _, (e : Evaluation), g => { g with clock := e.instant }
  | .recordFailure key _, (r, pruned), g =>
    let failures := g.failures.prune pruned
    let w := (failures.get key).getD ⟨r.inserted, 0⟩
    { failures := failures.insert key (w.restarted r).failed, clock := r.restart }
  | .recordSuccess key, _, g => { g with failures := g.failures.remove key }

end AuthOp

/-- Concurrent requests at one limiter. -/
def throttleWorld (ι : Type) : World AuthSig ι AuthAttempt Throttle Empty where
  can _ o a _ g := o.can g a
  loc _ o a l := o.loc a l
  sh _ o a _ g := o.sh a g
  canDrop _ _ := false
  dropLoc _ _ l := l
  dropSh _ _ _ g := g
  canEnv e _ := e.elim
  env e _ := e.elim

structure AuthCall where
  headers : HeaderMap
  sourceKey : String

abbrev ThrottleConf (ι : Type) := Conf AuthSig (Result Principal) ι AuthAttempt Throttle

def throttleStart {ι : Type} (sha256 : String → String) (cfg : SecurityConfig) (calls : ι → AuthCall) :
    ThrottleConf ι where
  prog i := some (authenticateRequest sha256 cfg (calls i).headers (calls i).sourceKey)
  loc i := { key := authFailureKey sha256 (calls i).sourceKey }
  sh := {}

end Llmctl
