import Llmctl.Quota
import Llmctl.Async.Window

/-!
# The typestate of a quota admission

`admitRequest_always`: what an admission holds, has read and has recorded at
each of its calls of the storage.
-/

namespace Llmctl

open Async

/-! ## Policies -/

theorem mem_matchingQuotaPolicies {quotas : List QuotaConfig} {p : Principal} {q : QuotaConfig} :
    q ∈ matchingQuotaPolicies quotas p ↔
      q ∈ quotas ∧ (q.subject = p.subject ∨ q.team ≠ "" ∧ q.team = p.team) := by
  simp [matchingQuotaPolicies]

theorem quotaIsSubjectScoped_iff {q : QuotaConfig} {p : Principal} :
    quotaIsSubjectScoped q p = true ↔ q.subject = p.subject := by
  simp [quotaIsSubjectScoped]

theorem quotaAdmissionScope_congr {p p' : Principal} (h : p.team = p'.team) (hne : p.team ≠ "") :
    quotaAdmissionScope p = quotaAdmissionScope p' := by
  unfold quotaAdmissionScope
  rw [if_neg (by simpa using hne), if_neg (by simpa [← h] using hne), h]

/-! ## The typestate -/

section
variable (st : Storage) (quotas : List QuotaConfig) (p : Principal)

/-- What an admission holds between taking the guard and releasing it. -/
def guarded (query : Bool) : Held where
  lock := some (quotaAdmissionScope p)
  guard := st.dialect == .postgres
  advisory := if st.dialect = .postgres then some (st.advisoryLockKeyForScope (quotaAdmissionScope p)) else none
  query := query

/-- Under the guard, nothing recorded yet. -/
def Undecided (l : Call) : Prop := l.held = guarded st p false ∧ l.seen.inserted = none

def Inside (q : QuotaConfig) (l : Call) : Prop :=
  ∃ x ∈ l.seen.readings, x.subjectScoped = quotaIsSubjectScoped q p ∧ x.admitted < q.requestsPerMinute

/-- A policy that makes `checkQuota` count rows, by subject or by team. -/
def Counts (subjectScoped : Bool) : Prop :=
  ∃ q ∈ matchingQuotaPolicies quotas p, 0 < q.requestsPerMinute ∧ quotaIsSubjectScoped q p = subjectScoped

def Admitting : StoreOp → Call → Prop
  | .lockLocal s, l => s = quotaAdmissionScope p ∧ l = {}
  | .acquireGuard, l => st.dialect = .postgres ∧ l = { held := { lock := some (quotaAdmissionScope p) } }
  | .advisoryLock k, l => st.dialect = .postgres ∧ k = st.advisoryLockKeyForScope (quotaAdmissionScope p) ∧
      l = { held := { lock := some (quotaAdmissionScope p), guard := true } }
  | .now, l | .acquireQuery, l => Undecided st p l
  | .allowedQuotaDecisionCount p' b t₁ t₂, l => l.held = guarded st p true ∧ l.seen.inserted = none ∧
      p' = p ∧ l.seen.now = some t₂ ∧ t₁ = t₂ - minute ∧ Counts quotas p b
  | .usageTokensTotal .., l => l.held = guarded st p true ∧ l.seen.inserted = none
  | .insertQuotaDecision r, l => l.held = guarded st p true ∧ l.seen.inserted = none ∧
      r.actor = p.subject ∧ r.team = p.team ∧ l.seen.now = some r.at_ ∧
      (r.allowed = true → ∀ q ∈ matchingQuotaPolicies quotas p, 0 < q.requestsPerMinute → Inside p q l)
  | .finishQuery, l => l.held = guarded st p true
  | .advisoryUnlock k, l => st.dialect = .postgres ∧ k = st.advisoryLockKeyForScope (quotaAdmissionScope p) ∧
      l.held = guarded st p false
  | .returnGuard, l => st.dialect = .postgres ∧ l.held = { lock := some (quotaAdmissionScope p), guard := true }
  | .detachGuard, l => st.dialect = .postgres ∧ l.held = guarded st p false
  | .unlockLocal s, l => s = quotaAdmissionScope p ∧ l.held = { lock := some (quotaAdmissionScope p) }
  | .insertUsageEvent _, _ | .insertAuditEvent _, _ | .insertRequestLineageJoin _, _ => False

/-- At its end an admission holds nothing, and its decision is recorded. -/
def Admitted (requestId : Option Nat) (result : Result QuotaDecision) (l : Call) : Prop :=
  l.held = {} ∧ ∀ d, result = .ok d →
    ∃ r, l.seen.inserted = some r ∧ r.allowed = d.allowed ∧ r.requestId = requestId

end

/-! ## Queries -/

section
variable {ι : Type} {st : Storage} {quotas : List QuotaConfig} {p : Principal} {i : ι}

theorem query_always {α : Type} {Ψ : Result α → Call → Prop} {statement : StoreProg (Result α)} {l : Call}
    (h : Undecided st p l) (herr : ∀ err, Ψ (.error err) l)
    (hs : Always (storeWorld ι st) i (Admitting st quotas p)
      (fun a l' => l'.held = guarded st p true ∧ Ψ a { l' with held := guarded st p false })
      statement { l with held := guarded st p true }) :
    Always (storeWorld ι st) i (Admitting st quotas p) Ψ (Storage.query statement) l := by
  refine Always.op h fun a _ _ => ?_
  cases a with
  | error err => exact herr err
  | ok _ =>
    have hl : (storeWorld ι st).loc i .acquireQuery (.ok ()) l = { l with held := guarded st p true } := by
      simp [storeWorld, StoreOp.loc, StoreOp.held, StoreOp.seen, h.1, guarded]
    rw [hl]
    refine hs.seq fun a l' h' => ?_
    refine Always.op h'.1 fun _ _ _ => ?_
    have hl' : (storeWorld ι st).loc i .finishQuery () l' = { l' with held := guarded st p false } := by
      simp [storeWorld, StoreOp.loc, StoreOp.held, StoreOp.seen, h'.1, guarded]
    rw [hl']
    exact h'.2

theorem firstExhausted_always {B : Call → Prop} {P : QuotaConfig → Call → Prop}
    {limit : QuotaConfig → Nat} {count : QuotaConfig → StoreProg (Result Nat)}
    {reason : QuotaConfig → Nat → String} : ∀ {qs : List QuotaConfig},
    (∀ q ∈ qs, 0 < limit q → ∀ l, B l → Always (storeWorld ι st) i (Admitting st quotas p)
      (fun r l' => B l' ∧ (∀ q', P q' l → P q' l') ∧ ∀ used, r = .ok used → used < limit q → P q l')
      (count q) l) →
    ∀ l, B l → Always (storeWorld ι st) i (Admitting st quotas p)
      (fun r l' => B l' ∧ (r = .ok none → ∀ q ∈ qs, 0 < limit q → P q l') ∧ (∀ q, P q l → P q l') ∧
        ∀ d, r = .ok (some d) → d.allowed = false)
      (firstExhausted limit count reason qs) l
  | [], _, l, hB => ⟨hB, by simp, fun _ h => h, by simp⟩
  | q :: qs, hcount, l, hB => by
    have hqs : ∀ q' ∈ qs, 0 < limit q' → _ := fun q' h' => hcount q' (List.mem_cons_of_mem _ h')
    unfold firstExhausted
    split
    · rename_i hpos
      apply (hcount q (by simp) hpos l hB).seq
      rintro (err | used) l' ⟨hB', hkeep, hin⟩
      · exact ⟨hB', by simp, hkeep, by simp⟩
      · simp only
        split
        · exact ⟨hB', by simp, hkeep, by simp⟩
        · rename_i hlt
          refine (firstExhausted_always hqs l' hB').mono (fun _ _ h => h) ?_
          rintro r l'' ⟨hB'', hall, hkeep', hden⟩
          refine ⟨hB'', fun hr q' hq' hpos' => ?_, fun q' hP => hkeep' _ (hkeep _ hP), hden⟩
          rcases List.mem_cons.mp hq' with rfl | hq'
          · exact hkeep' _ (hin used rfl (by omega))
          · exact hall hr q' hq' hpos'
    · rename_i hpos
      refine (firstExhausted_always hqs l hB).mono (fun _ _ h => h) ?_
      rintro r l'' ⟨hB'', hall, hkeep', hden⟩
      refine ⟨hB'', fun hr q' hq' hpos' => ?_, hkeep', hden⟩
      rcases List.mem_cons.mp hq' with rfl | hq'
      · exact absurd hpos' hpos
      · exact hall hr q' hq' hpos'

/-! ## The check -/

/-- Under the guard at clock reading `t`, nothing recorded yet. -/
def UndecidedAt (st : Storage) (p : Principal) (t : Int) (l : Call) : Prop :=
  Undecided st p l ∧ l.seen.now = some t

theorem exhaustedRequests_always {t : Int} {qs : List QuotaConfig}
    (hqs : ∀ q ∈ qs, q ∈ matchingQuotaPolicies quotas p) {l : Call} (h : UndecidedAt st p t l) :
    Always (storeWorld ι st) i (Admitting st quotas p)
      (fun r l' => UndecidedAt st p t l' ∧
        (r = .ok none → ∀ q ∈ qs, 0 < q.requestsPerMinute → Inside p q l') ∧
        (∀ q, Inside p q l → Inside p q l') ∧ ∀ d, r = .ok (some d) → d.allowed = false)
      (exhaustedRequests p t qs) l := by
  refine firstExhausted_always (B := UndecidedAt st p t) (P := Inside p) ?_ l h
  intro q hq hpos l hl
  refine query_always hl.1 (fun err => ⟨hl, fun _ h => h, by simp⟩) ?_
  refine ⟨⟨rfl, hl.1.2, rfl, hl.2, rfl, q, hqs q hq, hpos, rfl⟩, fun a g _ => ?_⟩
  cases a with
  | error err => exact ⟨rfl, ⟨⟨rfl, hl.1.2⟩, hl.2⟩, fun _ h => h, by simp⟩
  | ok n =>
    refine ⟨rfl, ⟨⟨rfl, hl.1.2⟩, hl.2⟩, fun q' ⟨x, hx, hx'⟩ => ⟨x, List.mem_append_left _ hx, hx'⟩, ?_⟩
    rintro used hu hlt
    cases hu
    exact ⟨⟨quotaIsSubjectScoped q p, t, n⟩, List.mem_append_right _ (by simp), rfl, hlt⟩

theorem exhaustedTokens_always {t : Int} {qs : List QuotaConfig} {l : Call} (h : UndecidedAt st p t l) :
    Always (storeWorld ι st) i (Admitting st quotas p)
      (fun r l' => (Undecided st p l' ∧ l'.seen.readings = l.seen.readings) ∧
        ∀ d, r = .ok (some d) → d.allowed = false)
      (exhaustedTokens p t qs) l := by
  refine (firstExhausted_always (P := fun _ _ => True)
    (B := fun l' => Undecided st p l' ∧ l'.seen.readings = l.seen.readings) ?_ l ⟨h.1, rfl⟩).mono
    (fun _ _ h => h) fun r l' h' => ⟨h'.1, h'.2.2.2⟩
  intro q _ _ l₁ hl
  refine query_always hl.1 (fun err => ⟨hl, fun _ h => h, by simp⟩) ?_
  refine ⟨⟨rfl, hl.1.2⟩, fun a g _ => ?_⟩
  cases a with
  | error err => exact ⟨rfl, ⟨⟨rfl, hl.1.2⟩, hl.2⟩, fun _ h => h, by simp⟩
  | ok n => exact ⟨rfl, ⟨⟨rfl, hl.1.2⟩, hl.2⟩, fun _ h => h, by simp⟩

theorem checkQuota_always {model : String} {l : Call} (h : Undecided st p l) :
    Always (storeWorld ι st) i (Admitting st quotas p)
      (fun r l' => Undecided st p l' ∧ ∀ d, r = .ok d → d.allowed = true →
        ∀ q ∈ matchingQuotaPolicies quotas p, 0 < q.requestsPerMinute → Inside p q l')
      (checkQuota quotas p model) l := by
  unfold checkQuota
  simp only
  split
  · rename_i hnil
    refine ⟨h, fun d _ _ q hq => ?_⟩
    rw [List.isEmpty_iff.mp hnil] at hq
    simp at hq
  · split
    · exact ⟨h, by rintro d hd hall; cases hd; simp at hall⟩
    · refine Always.op h fun t _ _ => ?_
      have hl : UndecidedAt st p t ((storeWorld ι st).loc i .now t l) := ⟨⟨h.1, h.2⟩, rfl⟩
      apply (exhaustedRequests_always (fun _ h => h) hl).seq
      rintro (err | none | denied) l₁ ⟨hl₁, hin, _, hden⟩
      · exact ⟨hl₁.1, by simp⟩
      · apply (exhaustedTokens_always hl₁).seq
        rintro (err | none | denied) l₂ ⟨⟨hl₂, hr⟩, hden₂⟩
        · exact ⟨hl₂, by simp⟩
        · refine ⟨hl₂, fun d _ _ q hq hpos => ?_⟩
          have := hin rfl q hq hpos
          unfold Inside at this ⊢
          rwa [hr]
        · exact ⟨hl₂, by rintro d hd hall; cases hd; simp [hden₂ denied rfl] at hall⟩
      · exact ⟨hl₁.1, by rintro d hd hall; cases hd; simp [hden denied rfl] at hall⟩

/-! ## The admission -/

theorem checkAndRecord_always {model : String} {policyJson : Json} {requestId : Option Nat} {l : Call}
    (h : Undecided st p l) :
    Always (storeWorld ι st) i (Admitting st quotas p)
      (fun r l' => l'.held = guarded st p false ∧ ∀ d, r = .ok d →
        ∃ row, l'.seen.inserted = some row ∧ row.allowed = d.allowed ∧ row.requestId = requestId)
      (checkAndRecord quotas p model requestId policyJson) l := by
  unfold checkAndRecord
  apply (checkQuota_always h).seq
  rintro (err | d) l₁ ⟨hl₁, hin⟩
  · exact ⟨hl₁.1, by simp⟩
  · refine Always.op hl₁ fun t _ _ => ?_
    have hl : Undecided st p ((storeWorld ι st).loc i .now t l₁) := ⟨hl₁.1, hl₁.2⟩
    refine Always.bind (query_always hl ?_ ?_)
    · exact fun err => ⟨hl₁.1, by simp⟩
    · refine ⟨⟨rfl, hl₁.2, rfl, rfl, rfl, fun hall q hq hpos => hin d rfl hall q hq hpos⟩, fun a _ _ => ?_⟩
      cases a with
      | error err => exact ⟨rfl, rfl, by simp⟩
      | ok _ =>
        refine ⟨rfl, rfl, ?_⟩
        rintro d' hd'
        cases hd'
        exact ⟨_, rfl, rfl, rfl⟩

theorem quotaAdmissionGuard_always :
    Always (storeWorld ι st) i (Admitting st quotas p)
      (fun r l => (∀ err, r = .error err → l.held = {}) ∧ (r = .ok () → l = { held := guarded st p false }))
      (st.quotaAdmissionGuard (quotaAdmissionScope p)) {} := by
  unfold Storage.quotaAdmissionGuard
  refine Always.op ⟨rfl, rfl⟩ fun _ _ _ => ?_
  cases hd : st.dialect with
  | sqlite => simp [storeWorld, StoreOp.loc, StoreOp.held, StoreOp.seen, guarded, hd]
  | postgres =>
    refine Always.op ⟨hd, rfl⟩ fun a _ _ => ?_
    cases a with
    | error err => exact Always.op ⟨rfl, rfl⟩ fun _ _ _ => ⟨fun _ _ => rfl, by simp⟩
    | ok _ =>
      refine Always.op ⟨hd, rfl, rfl⟩ fun a _ _ => ?_
      cases a with
      | error err =>
        exact Always.op ⟨hd, rfl⟩ fun _ _ _ => Always.op ⟨rfl, rfl⟩ fun _ _ _ => ⟨fun _ _ => rfl, by simp⟩
      | ok _ => simp [storeWorld, StoreOp.loc, StoreOp.held, StoreOp.seen, guarded, hd]

theorem release_always {l : Call} (h : l.held = guarded st p false) :
    Always (storeWorld ι st) i (Admitting st quotas p)
      (fun _ l' => l' = { l with held := {} }) (st.release (quotaAdmissionScope p)) l := by
  unfold Storage.release
  cases hd : st.dialect with
  | sqlite =>
    have hl : l.held = { lock := some (quotaAdmissionScope p) } := by rw [h, guarded, hd]; rfl
    refine Always.op ⟨rfl, hl⟩ fun _ _ _ => ?_
    simp [storeWorld, StoreOp.loc, StoreOp.held, StoreOp.seen, hl]
  | postgres =>
    refine Always.op ⟨hd, rfl, h⟩ fun a _ _ => ?_
    cases a with
    | error err =>
      refine Always.op ⟨hd, h⟩ fun _ _ _ => Always.op ⟨rfl, ?_⟩ fun _ _ _ => ?_ <;>
        simp [storeWorld, StoreOp.loc, StoreOp.held, StoreOp.seen, h, guarded]
    | ok _ =>
      have hl : ((storeWorld ι st).loc i (.advisoryUnlock (st.advisoryLockKeyForScope (quotaAdmissionScope p)))
          (.ok ()) l).held = { lock := some (quotaAdmissionScope p), guard := true } := by
        simp [storeWorld, StoreOp.loc, StoreOp.held, h, guarded, hd]
      refine Always.op ⟨hd, hl⟩ fun _ _ _ => Always.op ⟨rfl, ?_⟩ fun _ _ _ => ?_ <;>
        simp [storeWorld, StoreOp.loc, StoreOp.held, StoreOp.seen, h, guarded]

/-- Every call an admission makes meets `Admitting`; it ends with nothing held. -/
theorem admitRequest_always (quotas : List QuotaConfig) (p : Principal) (model : String)
    (policyJson : Json) (requestId : Option Nat) :
    Always (storeWorld ι st) i (Admitting st quotas p) (Admitted requestId)
      (admitRequest st quotas p model requestId policyJson) {} := by
  unfold admitRequest Storage.withQuotaAdmission
  apply quotaAdmissionGuard_always.seq
  rintro (err | _) l ⟨herr, hok⟩
  · exact ⟨herr err rfl, by simp⟩
  · rw [hok rfl]
    apply (checkAndRecord_always ⟨rfl, rfl⟩).seq
    rintro r l' ⟨hl', hr⟩
    apply (release_always hl').seq
    rintro _ l'' rfl
    exact ⟨rfl, hr⟩

end

theorem admissionStart_typed {ι : Type} [DecidableEq ι] (st : Storage) (quotas : List QuotaConfig)
    (calls : ι → Admission) :
    Typed (storeWorld ι st) (fun i => Admitting st quotas (calls i).principal)
      (fun i => Admitted (calls i).requestId) (admissionStart st quotas calls) := by
  intro i p hp
  cases hp
  exact admitRequest_always quotas _ _ _ _

end Llmctl
