import Llmctl.Store

/-!
# Quota admission

`checkQuota` decides on what the policies that match a principal count, and
`admitRequest` records the decision under the lock of the principal's scope.
-/

namespace Llmctl

open Async

structure QuotaConfig where
  subject : String
  team : String
  requestsPerMinute : Nat
  tokensPerDay : Nat
  maxConcurrency : Nat
  allowedModels : List String
  deriving DecidableEq, Repr

/-! ## Policies -/

def quotaIsSubjectScoped (q : QuotaConfig) (principal : Principal) : Bool :=
  q.subject == principal.subject

def matchingQuotaPolicies (quotas : List QuotaConfig) (principal : Principal) : List QuotaConfig :=
  quotas.filter fun q =>
    q.subject == principal.subject || (!q.team.isEmpty && q.team == principal.team)

def quotaAdmissionScope (principal : Principal) : String :=
  if principal.team.isEmpty then s!"subject:{principal.subject}" else s!"team:{principal.team}"

def quotaScopeLabel (q : QuotaConfig) (principal : Principal) : String :=
  if quotaIsSubjectScoped q principal then s!"subject {principal.subject}" else s!"team {principal.team}"

/-! ## The check -/

def minute : Int := 60 * 1000000000

def day : Int := 24 * 60 * minute

def dayStart (now : Int) : Int := now - now % day

/-- The first policy whose non-zero `limit` what it counts has reached. -/
def firstExhausted (limit : QuotaConfig → Nat) (count : QuotaConfig → StoreProg (Result Nat))
    (reason : QuotaConfig → Nat → String) : List QuotaConfig → StoreProg (Result (Option QuotaDecision))
  | [] => pure (.ok none)
  | q :: qs => do
    if 0 < limit q then
      match ← count q with
      | .error err => pure (.error err)
      | .ok used =>
        if limit q ≤ used then pure (.ok (some ⟨false, reason q used⟩))
        else firstExhausted limit count reason qs
    else firstExhausted limit count reason qs

def exhaustedRequests (principal : Principal) (now : Int) :
    List QuotaConfig → StoreProg (Result (Option QuotaDecision)) :=
  firstExhausted (·.requestsPerMinute)
    (fun q => Storage.allowedQuotaDecisionCount principal (quotaIsSubjectScoped q principal) (now - minute) now)
    (fun q admitted =>
      s!"requests_per_minute exhausted for {quotaScopeLabel q principal}: {admitted}/{q.requestsPerMinute}")

def exhaustedTokens (principal : Principal) (now : Int) :
    List QuotaConfig → StoreProg (Result (Option QuotaDecision)) :=
  firstExhausted (·.tokensPerDay)
    (fun q => Storage.usageTokensTotal principal (quotaIsSubjectScoped q principal) (dayStart now) now)
    (fun q used => s!"tokens_per_day exhausted for {quotaScopeLabel q principal}: {used}/{q.tokensPerDay}")

def checkQuota (quotas : List QuotaConfig) (principal : Principal) (model : String) :
    StoreProg (Result QuotaDecision) := do
  let matching := matchingQuotaPolicies quotas principal
  if matching.isEmpty then
    pure (.ok ⟨true, "no quota configured"⟩)
  else
    match matching.find? fun q => !q.allowedModels.isEmpty && !q.allowedModels.any (· == model) with
    | some q => pure (.ok ⟨false, s!"model {model} is not allowed for {quotaScopeLabel q principal}"⟩)
    | none =>
      let now ← Prog.op (S := StoreSig) .now
      match ← exhaustedRequests principal now matching with
      | .error err => pure (.error err)
      | .ok (some denied) => pure (.ok denied)
      | .ok none =>
        match ← exhaustedTokens principal now matching with
        | .error err => pure (.error err)
        | .ok (some denied) => pure (.ok denied)
        | .ok none => pure (.ok ⟨true, "quota policy allowed"⟩)

/-! ## The admission -/

def checkAndRecord (quotas : List QuotaConfig) (principal : Principal) (model : String)
    (requestId : Option Nat) (policyJson : Json) : StoreProg (Result QuotaDecision) := do
  match ← checkQuota quotas principal model with
  | .error err => pure (.error err)
  | .ok decision =>
    let now ← Prog.op (S := StoreSig) .now
    match ← Storage.insertQuotaDecision (.new requestId principal model decision policyJson now) with
    | .error err => pure (.error err)
    | .ok _ => pure (.ok decision)

def admitRequest (st : Storage) (quotas : List QuotaConfig) (principal : Principal) (model : String)
    (requestId : Option Nat) (policyJson : Json) : StoreProg (Result QuotaDecision) :=
  st.withQuotaAdmission (quotaAdmissionScope principal)
    (checkAndRecord quotas principal model requestId policyJson)

structure Admission where
  principal : Principal
  model : String
  requestId : Option Nat
  policyJson : Json
  deriving DecidableEq, Repr

def Admission.prog (st : Storage) (quotas : List QuotaConfig) (a : Admission) : StoreProg (Result QuotaDecision) :=
  admitRequest st quotas a.principal a.model a.requestId a.policyJson

abbrev StoreConf (ι : Type) := Conf StoreSig (Result QuotaDecision) ι Call Shared

def admissionStart {ι : Type} (st : Storage) (quotas : List QuotaConfig) (calls : ι → Admission) :
    StoreConf ι where
  prog i := some ((calls i).prog st quotas)
  loc _ := {}
  sh := {}

end Llmctl
