import Mathlib.Algebra.BigOperators.Group.Finset.Piecewise
import Llmctl.QuotaSound
import Llmctl.Async.Owned

/-!
# The connection pool under quota admission

On Postgres each admission keeps one connection of the pool with its guard and
takes another one for each query. Admissions of as many scopes as the pool has
connections can all hold a guard and wait for a query forever; with fewer
scopes some admission can always go on.
-/

namespace Llmctl

open Async

/-! ## Who holds what -/

def Held.connections (h : Held) : Nat := h.guard.toNat + h.query.toNat

section
variable {ι : Type} [DecidableEq ι] [Fintype ι]

/-- The locks and the pool record what the calls hold. -/
structure PoolInv (loc : ι → Call) (g : Shared) : Prop where
  locks : Owned (fun i => (loc i).held.lock) g.locked
  advisory : Owned (fun i => (loc i).held.advisory) g.advisory
  pool : g.connections = ∑ i, (loc i).held.connections

omit [DecidableEq ι] in
theorem poolInv_start (st : Storage) (quotas : List QuotaConfig) (calls : ι → Admission) :
    PoolInv (admissionStart st quotas calls).loc (admissionStart st quotas calls).sh := by
  refine ⟨Owned.init, Owned.init, ?_⟩
  simp [admissionStart, Held.connections]

theorem PoolInv.update {loc : ι → Call} {g g' : Shared} (h : PoolInv loc g) {i : ι} {l : Call}
    (hlocks : Owned (Function.update (fun j => (loc j).held.lock) i l.held.lock) g'.locked)
    (hadvisory : Owned (Function.update (fun j => (loc j).held.advisory) i l.held.advisory) g'.advisory)
    (hpool : g'.connections + (loc i).held.connections = g.connections + l.held.connections) :
    PoolInv (Function.update loc i l) g' := by
  constructor
  · rw [comp_update_eq (fun l : Call => l.held.lock)]; exact hlocks
  · rw [comp_update_eq (fun l : Call => l.held.advisory)]; exact hadvisory
  · have hsum := sum_update_add (fun l : Call => l.held.connections) loc i l
    have hp := h.pool
    omega

omit [DecidableEq ι] in
theorem PoolInv.connections_pos {loc : ι → Call} {g : Shared} (h : PoolInv loc g) (i : ι) :
    (loc i).held.connections ≤ g.connections := by
  rw [h.pool]
  exact le_sum (fun l : Call => l.held.connections) loc i

theorem poolInv_answer (st : Storage) (quotas : List QuotaConfig) (calls : ι → Admission)
    (c : StoreConf ι) (i : ι) (o : StoreOp) (a : StoreSig.Ans o) (h : PoolInv c.loc c.sh)
    (hΦ : Admitting st quotas (calls i).principal o (c.loc i)) (hcan : o.can st c.sh a = true) :
    PoolInv (Function.update c.loc i (o.loc a (c.loc i))) (o.sh a (c.loc i).held c.sh) := by
  have hle := h.connections_pos i
  have hlocks : Owned (Function.update (fun j => (c.loc j).held.lock) i (c.loc i).held.lock) c.sh.locked := by
    rw [Function.update_eq_self]; exact h.locks
  have hadvisory :
      Owned (Function.update (fun j => (c.loc j).held.advisory) i (c.loc i).held.advisory) c.sh.advisory := by
    rw [Function.update_eq_self]; exact h.advisory
  cases o with
  | lockLocal s =>
    refine h.update (h.locks.acquire ?_ (by simpa [StoreOp.can] using hcan)) hadvisory rfl
    rw [hΦ.2]
  | unlockLocal s =>
    refine h.update (h.locks.release ?_) hadvisory rfl
    rw [hΦ.1, hΦ.2]
  | acquireGuard =>
    cases a with
    | error err => exact h.update hlocks hadvisory rfl
    | ok _ =>
      refine h.update hlocks hadvisory ?_
      simp [StoreOp.sh, StoreOp.loc, StoreOp.held, Held.connections, hΦ.2]
  | advisoryLock k =>
    cases a with
    | error err => exact h.update hlocks hadvisory rfl
    | ok _ =>
      refine h.update hlocks (h.advisory.acquire ?_ (by simpa [StoreOp.can] using hcan)) rfl
      rw [hΦ.2.2]
  | advisoryUnlock k =>
    cases a with
    | error err => exact h.update hlocks hadvisory rfl
    | ok _ =>
      refine h.update hlocks (h.advisory.release ?_) rfl
      rw [hΦ.2.1, hΦ.2.2, guarded, if_pos hΦ.1]
  | returnGuard =>
    refine h.update hlocks hadvisory ?_
    have hc : (c.loc i).held.connections = 1 := by rw [hΦ.2]; rfl
    have hc' : (StoreOp.loc .returnGuard a (c.loc i)).held.connections = 0 := by
      simp [StoreOp.loc, StoreOp.held, Held.connections, hΦ.2]
    simp only [StoreOp.sh]
    omega
  | detachGuard =>
    have hk : (c.loc i).held.advisory =
        some (st.advisoryLockKeyForScope (quotaAdmissionScope (calls i).principal)) := by
      rw [hΦ.2, guarded, if_pos hΦ.1]
    refine h.update hlocks ?_ ?_
    · simp only [StoreOp.sh, hk]
      exact h.advisory.release hk
    · have hc : (c.loc i).held.connections = 1 := by
        rw [hΦ.2]; simp [guarded, Held.connections, hΦ.1]
      have hc' : (StoreOp.loc .detachGuard a (c.loc i)).held.connections = 0 := by
        simp [StoreOp.loc, StoreOp.held, Held.connections, hΦ.2, guarded]
      simp only [StoreOp.sh]
      omega
  | acquireQuery =>
    cases a with
    | error err => exact h.update hlocks hadvisory rfl
    | ok _ =>
      refine h.update hlocks hadvisory ?_
      simp [StoreOp.sh, StoreOp.loc, StoreOp.held, Held.connections, hΦ.1, guarded]
      omega
  | finishQuery =>
    refine h.update hlocks hadvisory ?_
    have hc : (c.loc i).held.connections = (StoreOp.loc .finishQuery a (c.loc i)).held.connections + 1 := by
      rw [show (c.loc i).held = guarded st (calls i).principal true from hΦ]
      simp [StoreOp.loc, StoreOp.held, Held.connections, guarded,
        show (c.loc i).held = guarded st (calls i).principal true from hΦ]
    simp only [StoreOp.sh]
    omega
  | allowedQuotaDecisionCount => cases a <;> exact h.update hlocks hadvisory rfl
  | usageTokensTotal => cases a <;> exact h.update hlocks hadvisory rfl
  | insertQuotaDecision => cases a <;> exact h.update hlocks hadvisory rfl
  | now => exact h.update hlocks hadvisory rfl
  | insertUsageEvent => exact absurd hΦ id
  | insertAuditEvent => exact absurd hΦ id
  | insertRequestLineageJoin => exact absurd hΦ id

theorem poolInv_reach {st : Storage} {quotas : List QuotaConfig} {calls : ι → Admission} {c : StoreConf ι}
    {ok : StoreConf ι → Label StoreSig ι Empty → Prop}
    (hr : Reach (storeWorld ι st) ok (admissionStart st quotas calls) c) : PoolInv c.loc c.sh :=
  (admissionStart_typed st quotas calls).pool (J := PoolInv) (poolInv_start st quotas calls)
    (fun c i o a h hΦ _ hcan => poolInv_answer st quotas calls c i o a h hΦ hcan)
    (fun _ _ _ _ _ _ hd => by cases hd) (fun _ e => e.elim) hr

end

/-! ## Waiting -/

section
variable {ι : Type} (st : Storage)

def Waits (g : Shared) : StoreOp → Prop
  | .lockLocal s => g.locked s = true
  | .advisoryLock k => g.advisory k = true
  | .acquireGuard | .acquireQuery => st.maxConnections ≤ g.connections
  | _ => False

def Unfinished (c : StoreConf ι) (i : ι) : Prop := ∃ o k, c.prog i = some (.call o k)

def Blocked (c : StoreConf ι) (i : ι) : Prop := ∃ o k, c.prog i = some (.call o k) ∧ Waits st c.sh o

def DeadlockFree [DecidableEq ι] (quotas : List QuotaConfig) (calls : ι → Admission) : Prop :=
  ∀ c, Reach (storeWorld ι st) (fun _ _ => True) (admissionStart st quotas calls) c →
    (∃ i, Unfinished c i) → ∃ l c', Step (storeWorld ι st) c l c'

variable {st}

theorem not_can_of_waits {g : Shared} {o : StoreOp} (h : Waits st g o) (a : StoreSig.Ans o) :
    o.can st g a = false := by
  cases o with
  | lockLocal s => simpa [StoreOp.can, Waits] using h
  | advisoryLock k => simpa [StoreOp.can, Waits] using h
  | acquireGuard => simpa [StoreOp.can, Waits] using h
  | acquireQuery => simpa [StoreOp.can, Waits] using h
  | _ => exact absurd h id

theorem exists_can {g : Shared} {o : StoreOp} (h : ¬ Waits st g o) : ∃ a, o.can st g a = true := by
  cases o with
  | lockLocal s => exact ⟨(), by simpa [StoreOp.can, Waits] using h⟩
  | advisoryLock k => exact ⟨.ok (), by simpa [StoreOp.can, Waits] using h⟩
  | acquireGuard => exact ⟨.ok (), by simpa [StoreOp.can, Waits] using h⟩
  | acquireQuery => exact ⟨.ok (), by simpa [StoreOp.can, Waits] using h⟩
  | now => exact ⟨g.clock + 1, by simp [StoreOp.can]⟩
  | allowedQuotaDecisionCount => exact ⟨.error "", rfl⟩
  | usageTokensTotal => exact ⟨.error "", rfl⟩
  | advisoryUnlock => exact ⟨.ok (), rfl⟩
  | insertQuotaDecision => exact ⟨.ok (), rfl⟩
  | insertUsageEvent => exact ⟨.ok (), rfl⟩
  | insertAuditEvent => exact ⟨.ok (), rfl⟩
  | insertRequestLineageJoin => exact ⟨.ok (), rfl⟩
  | unlockLocal => exact ⟨(), rfl⟩
  | returnGuard => exact ⟨(), rfl⟩
  | detachGuard => exact ⟨(), rfl⟩
  | finishQuery => exact ⟨(), rfl⟩

variable [DecidableEq ι]

theorem step_of_not_waits {c : StoreConf ι} {i : ι} {o : StoreOp} {k : StoreSig.Ans o → StoreProg (Result QuotaDecision)}
    (hp : c.prog i = some (.call o k)) (h : ¬ Waits st c.sh o) : ∃ l c', Step (storeWorld ι st) c l c' := by
  obtain ⟨a, ha⟩ := exists_can h
  exact ⟨_, _, .answer (W := storeWorld ι st) (a := a) hp ha⟩

theorem no_step_of_blocked {c : StoreConf ι} (h : ∀ i, Blocked st c i) : ¬ ∃ l c', Step (storeWorld ι st) c l c' := by
  intro ⟨l, c', hs⟩
  cases hs with
  | @answer i o k a hp hc =>
    obtain ⟨o', k', hp', hw⟩ := h i
    rw [hp] at hp'
    cases hp'
    have hnot : (storeWorld ι st).can i o a (c.loc i) c.sh = false := not_can_of_waits hw a
    rw [hc] at hnot
    cases hnot
  | drop hp hd => cases hd
  | env he => cases he

end

/-! ## Fewer scopes than connections -/

section
variable {ι : Type} {st : Storage} {quotas : List QuotaConfig} {p : Principal} {o : StoreOp} {l : Call}

theorem Admitting.lock_of_guard (h : Admitting st quotas p o l) (hg : l.held.guard = true) :
    l.held.lock = some (quotaAdmissionScope p) := by
  cases o <;> simp_all [Admitting, Undecided, guarded]

theorem Admitting.query_ready (h : Admitting st quotas p o l) (hq : l.held.query = true) (g : Shared) :
    ¬ Waits st g o := by
  cases o <;> simp_all [Admitting, Undecided, guarded, Waits]

theorem Admitting.advisory_ready (h : Admitting st quotas p o l) (ha : l.held.advisory ≠ none) {g : Shared}
    (hfree : g.connections < st.maxConnections) : ¬ Waits st g o := by
  cases o <;> simp_all [Admitting, Undecided, guarded, Waits]

theorem Admitting.lock_ready (h : Admitting st quotas p o l) (hl : l.held.lock ≠ none) {g : Shared}
    (hfree : g.connections < st.maxConnections) (hadv : ∀ k, g.advisory k = false) : ¬ Waits st g o := by
  cases o <;> simp_all [Admitting, Undecided, guarded, Waits]

end

section
variable {ι : Type} [DecidableEq ι] [Fintype ι] {st : Storage} {quotas : List QuotaConfig} {calls : ι → Admission}

def scopes (calls : ι → Admission) : Finset String :=
  Finset.univ.image fun i => quotaAdmissionScope (calls i).principal

omit [DecidableEq ι] in
/-- Guard connections belong to different scopes. -/
theorem guards_le_scopes {c : StoreConf ι} (hinv : PoolInv c.loc c.sh)
    (hlock : ∀ i, (c.loc i).held.guard = true →
      (c.loc i).held.lock = some (quotaAdmissionScope (calls i).principal)) :
    (Finset.univ.filter fun i => (c.loc i).held.guard = true).card ≤ (scopes calls).card := by
  refine Finset.card_le_card_of_injOn (fun i => quotaAdmissionScope (calls i).principal) ?_ ?_
  · intro i _
    exact Finset.mem_coe.mpr (Finset.mem_image_of_mem _ (Finset.mem_univ i))
  · intro i hi j hj hij
    have hi := hlock i (by simpa using hi)
    have hj := hlock j (by simpa using hj)
    refine hinv.locks.own i j _ hi ?_
    rw [hj]
    exact congrArg some hij.symm

theorem progress_of_few_scopes (hfew : (scopes calls).card < st.maxConnections) {c : StoreConf ι}
    (hr : Reach (storeWorld ι st) (fun _ _ => True) (admissionStart st quotas calls) c)
    (hun : ∃ i, Unfinished c i) : ∃ l c', Step (storeWorld ι st) c l c' := by
  have hinv := poolInv_reach hr
  have htyped := (admissionStart_typed st quotas calls).reach hr
  -- A call that holds anything is at a call of the storage.
  have hat : ∀ i, (c.loc i).held ≠ {} → ∃ o k, c.prog i = some (.call o k) ∧
      Admitting st quotas (calls i).principal o (c.loc i) := by
    intro i hne
    have hsome : ∃ p, c.prog i = some p :=
      hr.invariant (J := fun c => ∀ i, ∃ p, c.prog i = some p) (fun i => ⟨_, rfl⟩) (by
        intro c l c' hJ _ hs j
        cases hs with
        | @answer i o k a hp hc =>
          by_cases hji : j = i
          · subst hji; exact ⟨k a, by simp⟩
          · simp only [Function.update_of_ne hji]; exact hJ j
        | drop hp hd => cases hd
        | env he => cases he) i
    obtain ⟨p, hp⟩ := hsome
    have ht := htyped i p hp
    cases p with
    | done r => exact absurd ht.1 hne
    | call o k => exact ⟨o, k, hp, ht.1⟩
  by_contra hno
  have hwaits : ∀ {i o k}, c.prog i = some (.call o k) → Waits st c.sh o := by
    intro i o k hp
    by_contra hw
    exact hno (step_of_not_waits hp hw)
  have hquery : ∀ i, (c.loc i).held.query = false := by
    intro i
    by_contra hq
    rw [Bool.not_eq_false] at hq
    obtain ⟨o, k, hp, hΦ⟩ := hat i (fun e => by rw [e] at hq; cases hq)
    exact hΦ.query_ready hq c.sh (hwaits hp)
  have hfree : c.sh.connections < st.maxConnections := by
    refine lt_of_le_of_lt ?_ hfew
    refine le_trans (b := (Finset.univ.filter fun i => (c.loc i).held.guard = true).card) ?_ (guards_le_scopes hinv ?_)
    · rw [hinv.pool, Finset.card_filter]
      apply Finset.sum_le_sum
      intro i _
      simp only [Held.connections, hquery i]
      cases (c.loc i).held.guard <;> simp
    · intro i hg
      obtain ⟨o, k, hp, hΦ⟩ := hat i (fun e => by rw [e] at hg; cases hg)
      exact hΦ.lock_of_guard hg
  have hadv : ∀ k, c.sh.advisory k = false := by
    intro k
    by_contra ha
    rw [Bool.not_eq_false] at ha
    obtain ⟨i, hi⟩ := hinv.advisory.held_of k ha
    obtain ⟨o, k', hp, hΦ⟩ := hat i (fun e => by rw [e] at hi; cases hi)
    exact hΦ.advisory_ready (by rw [hi]; simp) hfree (hwaits hp)
  have hlocked : ∀ s, c.sh.locked s = false := by
    intro s
    by_contra hs
    rw [Bool.not_eq_false] at hs
    obtain ⟨i, hi⟩ := hinv.locks.held_of s hs
    obtain ⟨o, k, hp, hΦ⟩ := hat i (fun e => by rw [e] at hi; cases hi)
    exact hΦ.lock_ready (by rw [hi]; simp) hfree hadv (hwaits hp)
  obtain ⟨i, o, k, hp⟩ := hun
  have := hwaits hp
  cases o with
  | lockLocal s => rw [Waits, hlocked] at this; cases this
  | advisoryLock s => rw [Waits, hadv] at this; cases this
  | acquireGuard => exact absurd this (by simpa [Waits] using hfree)
  | acquireQuery => exact absurd this (by simpa [Waits] using hfree)
  | _ => exact absurd this id

end

/-! ## As many scopes as connections -/

section
variable {α β : Type}

/-- Answered with success, the program comes to a query without giving back anything before. -/
inductive Starved : StoreProg α → Prop where
  | query {k} : Starved (.call .acquireQuery k)
  | guard {k} (h : Starved (k (.ok ()))) : Starved (.call .acquireGuard k)
  | lock {s k} (h : Starved (k ())) : Starved (.call (.lockLocal s) k)
  | advisory {n k} (h : Starved (k (.ok ()))) : Starved (.call (.advisoryLock n) k)
  | now {k} (h : ∀ t, Starved (k t)) : Starved (.call .now k)

theorem Starved.bind {p : StoreProg β} (h : Starved p) (f : β → StoreProg α) : Starved (p >>= f) := by
  induction h with
  | query => exact .query
  | guard _ ih => exact .guard ih
  | lock _ ih => exact .lock ih
  | advisory _ ih => exact .advisory ih
  | now _ ih => exact .now ih

theorem query_starved (statement : StoreProg (Result α)) : Starved (Storage.query statement) := .query

theorem firstExhausted_starved {limit : QuotaConfig → Nat} {count : QuotaConfig → StoreProg (Result Nat)}
    {reason : QuotaConfig → Nat → String} (hcount : ∀ q, Starved (count q)) : ∀ qs,
    firstExhausted limit count reason qs = pure (.ok none) ∨ Starved (firstExhausted limit count reason qs)
  | [] => .inl rfl
  | q :: qs => by
    unfold firstExhausted
    split
    · exact .inr ((hcount q).bind _)
    · exact firstExhausted_starved hcount qs

theorem exhaustedRequests_starved (p : Principal) (t : Int) (qs : List QuotaConfig) :
    exhaustedRequests p t qs = pure (.ok none) ∨ Starved (exhaustedRequests p t qs) :=
  firstExhausted_starved (fun _ => query_starved _) qs

theorem exhaustedTokens_starved (p : Principal) (t : Int) (qs : List QuotaConfig) :
    exhaustedTokens p t qs = pure (.ok none) ∨ Starved (exhaustedTokens p t qs) :=
  firstExhausted_starved (fun _ => query_starved _) qs

theorem Starved.now_bind {f : Int → StoreProg α} (h : ∀ t, Starved (f t)) :
    Starved (Prog.op (S := StoreSig) .now >>= f) := .now h

theorem insert_starved (row : Int → QuotaDecisionRecord) (f : Result Unit → StoreProg α) :
    Starved (Prog.op (S := StoreSig) .now >>= fun t => Storage.insertQuotaDecision (row t) >>= f) :=
  .now_bind fun _ => (query_starved _).bind f

theorem checkAndRecord_starved (quotas : List QuotaConfig) (p : Principal) (model : String)
    (policyJson : Json) (requestId : Option Nat) : Starved (checkAndRecord quotas p model requestId policyJson) := by
  unfold checkAndRecord checkQuota
  simp only
  split
  · exact insert_starved _ _
  · split
    · exact insert_starved _ _
    · rw [Prog.bind_assoc]
      apply Starved.now_bind
      intro t
      rcases exhaustedRequests_starved p t (matchingQuotaPolicies quotas p) with hr | hr
      · rcases exhaustedTokens_starved p t (matchingQuotaPolicies quotas p) with ht | ht
        · rw [hr, ht]
          exact insert_starved _ _
        · rw [hr]
          exact (ht.bind _).bind _
      · exact (hr.bind _).bind _

theorem admission_prog {st : Storage} (hd : st.dialect = .postgres) (quotas : List QuotaConfig) (a : Admission) :
    ∃ k, a.prog st quotas = .call (.lockLocal (quotaAdmissionScope a.principal)) (fun _ => .call .acquireGuard k) ∧
      Starved (k (.ok ())) := by
  unfold Admission.prog admitRequest Storage.withQuotaAdmission Storage.quotaAdmissionGuard
  rw [hd]
  refine ⟨_, rfl, ?_⟩
  exact .advisory ((checkAndRecord_starved _ _ _ _ _).bind _)

end

section
variable {ι : Type} [DecidableEq ι] {st : Storage} {quotas : List QuotaConfig} {calls : ι → Admission}

/-- No connection is left, and every call is on its way to one. -/
def Exhausted (st : Storage) (c : StoreConf ι) : Prop :=
  c.sh.connections = st.maxConnections ∧ ∀ i, ∃ p, c.prog i = some p ∧ Starved p

omit [DecidableEq ι] in
theorem Waits.mono {g g' : Shared} (hl : ∀ s, g.locked s = true → g'.locked s = true)
    (ha : ∀ k, g.advisory k = true → g'.advisory k = true) (hc : g.connections = g'.connections) {o : StoreOp}
    (h : Waits st g o) : Waits st g' o := by
  cases o with
  | lockLocal s => exact hl s h
  | advisoryLock k => exact ha k h
  | acquireGuard => exact le_of_le_of_eq h hc
  | acquireQuery => exact le_of_le_of_eq h hc
  | _ => exact h

/-- A call answered without giving anything back leaves the others blocked. -/
theorem exhausted_step {c : StoreConf ι} (h : Exhausted st c) {i : ι} {o : StoreOp}
    {k : StoreSig.Ans o → StoreProg (Result QuotaDecision)} {a : StoreSig.Ans o}
    (hp : c.prog i = some (.call o k)) (hcan : o.can st c.sh a = true) (hk : Starved (k a))
    (hl : ∀ s, c.sh.locked s = true → (o.sh a (c.loc i).held c.sh).locked s = true)
    (ha : ∀ n, c.sh.advisory n = true → (o.sh a (c.loc i).held c.sh).advisory n = true)
    (hc : c.sh.connections = (o.sh a (c.loc i).held c.sh).connections) :
    ∃ c', Reach (storeWorld ι st) (fun _ _ => True) c c' ∧ Exhausted st c' ∧ c'.prog i = some (k a) ∧
      ∀ j, Blocked st c j → Blocked st c' j := by
  refine ⟨_, .step .refl trivial (.answer (W := storeWorld ι st) (a := a) hp hcan), ⟨?_, ?_⟩, by simp, ?_⟩
  · exact hc.symm.trans h.1
  · intro j
    by_cases hji : j = i
    · subst hji; exact ⟨k a, by simp, hk⟩
    · simp only [Function.update_of_ne hji]; exact h.2 j
  · intro j ⟨o', k', hp', hw⟩
    by_cases hji : j = i
    · subst hji
      rw [hp] at hp'
      cases hp'
      rw [not_can_of_waits hw a] at hcan
      cases hcan
    · exact ⟨o', k', by simp only [Function.update_of_ne hji]; exact hp', hw.mono hl ha hc⟩

theorem run_to_block {i : ι} {p : StoreProg (Result QuotaDecision)} (hs : Starved p) :
    ∀ {c : StoreConf ι}, Exhausted st c → c.prog i = some p →
    ∃ c', Reach (storeWorld ι st) (fun _ _ => True) c c' ∧ Exhausted st c' ∧ Blocked st c' i ∧
      ∀ j, Blocked st c j → Blocked st c' j := by
  have hupd : ∀ {κ : Type} [DecidableEq κ] (t : κ → Bool) (k k' : κ), t k' = true →
      Function.update t k true k' = true := by
    intro κ _ t k k' h
    by_cases hkk : k' = k
    · subst hkk; simp
    · rw [Function.update_of_ne hkk]; exact h
  induction hs with
  | query => exact fun h hp => ⟨_, .refl, h, ⟨_, _, hp, h.1.ge⟩, fun _ hj => hj⟩
  | guard _ _ => exact fun h hp => ⟨_, .refl, h, ⟨_, _, hp, h.1.ge⟩, fun _ hj => hj⟩
  | @lock s k hk ih =>
    intro c h hp
    by_cases hs : c.sh.locked s = true
    · exact ⟨_, .refl, h, ⟨_, _, hp, hs⟩, fun _ hj => hj⟩
    · obtain ⟨c₁, hr₁, h₁, hp₁, hb₁⟩ := exhausted_step (o := .lockLocal s) h hp (a := ()) (by simpa [StoreOp.can] using hs) hk
        (fun s' => hupd _ s s') (fun _ h => h) rfl
      obtain ⟨c₂, hr₂, h₂, hb, hb₂⟩ := ih h₁ hp₁
      exact ⟨c₂, hr₁.trans hr₂, h₂, hb, fun j hj => hb₂ j (hb₁ j hj)⟩
  | @advisory n k hk ih =>
    intro c h hp
    by_cases hs : c.sh.advisory n = true
    · exact ⟨_, .refl, h, ⟨_, _, hp, hs⟩, fun _ hj => hj⟩
    · obtain ⟨c₁, hr₁, h₁, hp₁, hb₁⟩ := exhausted_step (o := .advisoryLock n) h hp (a := .ok ()) (by simpa [StoreOp.can] using hs) hk
        (fun _ h => h) (fun n' => hupd _ n n') rfl
      obtain ⟨c₂, hr₂, h₂, hb, hb₂⟩ := ih h₁ hp₁
      exact ⟨c₂, hr₁.trans hr₂, h₂, hb, fun j hj => hb₂ j (hb₁ j hj)⟩
  | @now k hk ih =>
    intro c h hp
    obtain ⟨c₁, hr₁, h₁, hp₁, hb₁⟩ := exhausted_step (o := .now) h hp (a := c.sh.clock + 1) (by simp [StoreOp.can]) (hk _)
      (fun _ h => h) (fun _ h => h) rfl
    obtain ⟨c₂, hr₂, h₂, hb, hb₂⟩ := ih _ h₁ hp₁
    exact ⟨c₂, hr₁.trans hr₂, h₂, hb, fun j hj => hb₂ j (hb₁ j hj)⟩

theorem run_all_to_block (is : List ι) : ∀ {c : StoreConf ι}, Exhausted st c →
    ∃ c', Reach (storeWorld ι st) (fun _ _ => True) c c' ∧ Exhausted st c' ∧
      (∀ i ∈ is, Blocked st c' i) ∧ ∀ j, Blocked st c j → Blocked st c' j := by
  induction is with
  | nil => exact fun h => ⟨_, .refl, h, by simp, fun _ hj => hj⟩
  | cons i is ih =>
    intro c h
    obtain ⟨p, hp, hs⟩ := h.2 i
    obtain ⟨c₁, hr₁, h₁, hi, hb₁⟩ := run_to_block hs h hp
    obtain ⟨c₂, hr₂, h₂, his, hb₂⟩ := ih h₁
    refine ⟨c₂, hr₁.trans hr₂, h₂, ?_, fun j hj => hb₂ j (hb₁ j hj)⟩
    intro j hj
    rcases List.mem_cons.mp hj with rfl | hj
    · exact hb₂ j hi
    · exact his j hj

variable (quotas calls) in
/-- Calls of different scopes can all take their guards while connections last. -/
theorem take_guards (hd : st.dialect = .postgres) : ∀ is : List ι,
    (is.map fun i => quotaAdmissionScope (calls i).principal).Nodup → is.length ≤ st.maxConnections →
    ∃ c, Reach (storeWorld ι st) (fun _ _ => True) (admissionStart st quotas calls) c ∧
      c.sh.connections = is.length ∧
      (∀ s, c.sh.locked s = true → s ∈ is.map fun i => quotaAdmissionScope (calls i).principal) ∧
      (∀ i, i ∉ is → c.prog i = some ((calls i).prog st quotas)) ∧ ∀ i, ∃ p, c.prog i = some p ∧ Starved p := by
  intro is
  induction is with
  | nil =>
    intro _ _
    refine ⟨_, .refl, rfl, by simp [admissionStart], fun _ _ => rfl, fun i => ⟨_, rfl, ?_⟩⟩
    obtain ⟨k, hk, hs⟩ := admission_prog hd quotas (calls i)
    rw [hk]
    exact .lock (.guard hs)
  | cons i is ih =>
    intro hnd hlen
    rw [List.map_cons, List.nodup_cons] at hnd
    rw [List.length_cons] at hlen
    obtain ⟨c, hr, hconn, hlocks, hstart, hall⟩ := ih hnd.2 (by omega)
    have hi : i ∉ is := fun hi => hnd.1 (List.mem_map_of_mem hi)
    obtain ⟨k, hk, hs⟩ := admission_prog hd quotas (calls i)
    have hp := hstart i hi
    rw [hk] at hp
    have hfree : c.sh.locked (quotaAdmissionScope (calls i).principal) = false := by
      rw [← Bool.not_eq_true]
      exact fun h => hnd.1 (hlocks _ h)
    have hs₁ := Step.answer (W := storeWorld ι st) (a := ()) hp (by simpa [storeWorld, StoreOp.can] using hfree)
    have hs₂ := Step.answer (W := storeWorld ι st) (i := i) (o := .acquireGuard) (k := k) (a := .ok ())
      (c := { prog := Function.update c.prog i (some (.call .acquireGuard k))
              loc := Function.update c.loc i ((StoreOp.lockLocal (quotaAdmissionScope (calls i).principal)).loc () (c.loc i))
              sh := (StoreOp.lockLocal (quotaAdmissionScope (calls i).principal)).sh () (c.loc i).held c.sh })
      (by simp) (by
        have hlt : c.sh.connections < st.maxConnections := by omega
        simpa [storeWorld, StoreOp.can, StoreOp.sh] using hlt)
    refine ⟨_, .step (.step hr trivial hs₁) trivial hs₂, ?_, ?_, ?_, ?_⟩
    · simp [storeWorld, StoreOp.sh, hconn]
    · intro s hl
      simp only [List.map_cons, List.mem_cons]
      by_cases hss : s = quotaAdmissionScope (calls i).principal
      · exact .inl hss
      · refine .inr (hlocks s ?_)
        simpa [storeWorld, StoreOp.sh, Function.update_of_ne hss] using hl
    · intro j hj
      rw [List.mem_cons, not_or] at hj
      simp only [Function.update_of_ne hj.1]
      exact hstart j hj.2
    · intro j
      by_cases hji : j = i
      · subst hji; exact ⟨_, by simp, hs⟩
      · simp only [Function.update_of_ne hji]; exact hall j

end

section
variable {ι : Type} [DecidableEq ι] [Fintype ι] {st : Storage} {quotas : List QuotaConfig} {calls : ι → Admission}

theorem deadlock_of_many_scopes (hd : st.dialect = .postgres) (hpos : 2 ≤ st.maxConnections)
    (hmany : st.maxConnections ≤ (scopes calls).card) : ¬ DeadlockFree st quotas calls := by
  obtain ⟨chosen, hsub, hcard⟩ := Finset.exists_subset_card_eq hmany
  have hrange : chosen.toList ∈ Set.range (List.map fun i => quotaAdmissionScope (calls i).principal) := by
    rw [Set.range_list_map]
    intro s hs
    obtain ⟨i, _, hi⟩ := Finset.mem_image.mp (hsub (Finset.mem_toList.mp hs))
    exact ⟨i, hi⟩
  obtain ⟨is, his⟩ := hrange
  have hlen : is.length = st.maxConnections := by
    rw [← hcard, ← Finset.length_toList, ← his, List.length_map]
  obtain ⟨c, hr, hconn, _, _, hall⟩ := take_guards quotas calls hd is
    (by rw [his]; exact chosen.nodup_toList) hlen.le
  obtain ⟨c', hr', _, hblocked, _⟩ := run_all_to_block Finset.univ.toList ⟨hconn.trans hlen, hall⟩
  have hb : ∀ i, Blocked st c' i := fun i => hblocked i (Finset.mem_toList.mpr (Finset.mem_univ i))
  intro hfree
  obtain ⟨i, _⟩ : ∃ i, i ∈ is := List.exists_mem_of_length_pos (by omega)
  obtain ⟨o, k, hp, _⟩ := hb i
  exact no_step_of_blocked hb (hfree c' (hr.trans hr') ⟨i, o, k, hp⟩)

/-- Quota admission on Postgres is free of deadlock exactly when the calls are of
fewer scopes than the pool has connections. -/
theorem admitRequest_deadlockFree_iff (st : Storage) (quotas : List QuotaConfig) (calls : ι → Admission)
    (hd : st.dialect = .postgres) (hpos : 2 ≤ st.maxConnections) :
    DeadlockFree st quotas calls ↔ (scopes calls).card < st.maxConnections := by
  constructor
  · intro hfree
    by_contra hmany
    exact deadlock_of_many_scopes hd hpos (by omega) hfree
  · intro hfew c hr hun
    exact progress_of_few_scopes hfew hr hun

end

/-! ## Two teams, two connections -/

def postgres (maxConnections : Nat) : Storage where
  dialect := .postgres
  maxConnections := maxConnections
  advisoryLockKeyForScope scope := scope.length

def callOf (subject team : String) : Admission where
  principal := { subject := subject, team := team, scopes := ["chat"] }
  model := "llama"
  requestId := none
  policyJson := []

def aliceAndBob (bob : Bool) : Admission :=
  if bob then callOf "bob" "research" else callOf "alice" "platform"

theorem deadlock_two_of_two : ¬ DeadlockFree (postgres 2) [] aliceAndBob :=
  deadlock_of_many_scopes rfl (by decide) (by decide)

theorem deadlockFree_two_of_three : DeadlockFree (postgres 3) [] aliceAndBob :=
  (admitRequest_deadlockFree_iff (postgres 3) [] aliceAndBob rfl (by decide)).mpr (by decide)

end Llmctl
