import Mathlib.Data.Fintype.Basic
import Llmctl.QuotaSound
import Llmctl.Async.Owned

/-!
# Requests per minute

A policy's limit bounds the allowed rows of every minute as long as callers
that one policy counts together admit one after the other. The lock is named by
the team, the counts of a subject's policy by the subject: a subject admitted
through two teams at once passes its limit.
-/

namespace Llmctl

open Async

section
variable {ι : Type} (quotas : List QuotaConfig) (calls : ι → Admission)

def RpmLimited (subject : String) : Prop := ∃ q ∈ quotas, 0 < q.requestsPerMinute ∧ q.subject = subject

/-- No policy's minute holds more allowed rows than the policy's limit, whether
it counts the rows of a caller's subject or of a caller's team. -/
def RpmSafe (c : StoreConf ι) : Prop :=
  ∀ q ∈ quotas, 0 < q.requestsPerMinute → ∀ i, q ∈ matchingQuotaPolicies quotas (calls i).principal → ∀ t,
    hitsWithin (·.at_) (quotaRow (calls i).principal (quotaIsSubjectScoped q (calls i).principal))
      c.sh.tables.decisions t (t + minute) ≤ q.requestsPerMinute

def wantedLock : Label StoreSig ι Empty → Option (ι × String)
  | .answer i (.lockLocal s) _ => some (i, s)
  | _ => none

/-- A lock is not granted while a call of the same rate-limited subject holds another one. -/
def SubjectAlone (c : StoreConf ι) (l : Label StoreSig ι Empty) : Prop :=
  ∀ w ∈ wantedLock l, ∀ j, ∀ s ∈ (c.loc j).held.lock,
    (calls j).principal.subject = (calls w.1).principal.subject →
    RpmLimited quotas (calls w.1).principal.subject → s = w.2

/-- No policy names both the subject of one caller and the team that this caller
shares with another. -/
def SubjectOrTeam : Prop :=
  ∀ q ∈ quotas, 0 < q.requestsPerMinute → q.team ≠ "" → ∀ i j, (calls i).principal.team = q.team →
    (calls j).principal.team = q.team → (calls i).principal.subject = q.subject →
    (calls j).principal.subject = q.subject

/-! ## The invariant -/

structure Mark where
  lock : Option String
  seen : Seen

def Call.mark (l : Call) : Mark := ⟨l.held.lock, l.seen⟩

structure RpmInv (m : ι → Mark) (locked : String → Bool) (rows : List QuotaDecisionRecord) (clock : Int) :
    Prop where
  locks : Owned (fun i => (m i).lock) locked
  scope : ∀ i s, (m i).lock = some s → s = quotaAdmissionScope (calls i).principal
  alone : ∀ i j s s', (m i).lock = some s → (m j).lock = some s' →
    (calls j).principal.subject = (calls i).principal.subject →
    RpmLimited quotas (calls i).principal.subject → i = j
  past : ∀ r ∈ rows, r.at_ ≤ clock
  now : ∀ i t, (m i).seen.now = some t → t ≤ clock
  -- What `i` counts is older than its reading of the clock, taken under the lock.
  fresh : ∀ i s t, (m i).lock = some s → (m i).seen.inserted = none → (m i).seen.now = some t →
    ∀ b, Counts quotas (calls i).principal b → ∀ r ∈ rows, quotaRow (calls i).principal b r = true → r.at_ < t
  reading : ∀ i s, (m i).lock = some s → (m i).seen.inserted = none → ∀ x ∈ (m i).seen.readings,
    Counts quotas (calls i).principal x.subjectScoped ∧ (∃ t, (m i).seen.now = some t ∧ x.to_ ≤ t) ∧
    hitsSince (·.at_) (quotaRow (calls i).principal x.subjectScoped) rows (x.to_ - minute) ≤ x.admitted
  limited : ∀ q ∈ quotas, 0 < q.requestsPerMinute → ∀ i, q ∈ matchingQuotaPolicies quotas (calls i).principal →
    Limited (·.at_) (quotaRow (calls i).principal (quotaIsSubjectScoped q (calls i).principal)) minute
      q.requestsPerMinute rows

end

/-! ## What one operation keeps -/

section
variable {ι : Type} {quotas : List QuotaConfig} {calls : ι → Admission} {m : ι → Mark}
  {locked : String → Bool} {rows : List QuotaDecisionRecord} {clock : Int}

theorem quotaRow_subject {p : Principal} {r : QuotaDecisionRecord} :
    quotaRow p true r = true ↔ r.allowed = true ∧ r.actor = p.subject := by
  simp [quotaRow]

theorem quotaRow_team {p : Principal} {r : QuotaDecisionRecord} :
    quotaRow p false r = true ↔ r.allowed = true ∧ r.team = p.team := by
  simp [quotaRow]

theorem Counts.limited {p : Principal} (h : Counts quotas p true) : RpmLimited quotas p.subject := by
  obtain ⟨q, hq, hpos, hs⟩ := h
  exact ⟨q, (mem_matchingQuotaPolicies.mp hq).1, hpos, quotaIsSubjectScoped_iff.mp hs⟩

theorem Counts.team {p : Principal} (h : Counts quotas p false) : p.team ≠ "" := by
  obtain ⟨q, hq, _, hs⟩ := h
  have hns : ¬ q.subject = p.subject := fun e => by simp [quotaIsSubjectScoped_iff.mpr e] at hs
  rcases (mem_matchingQuotaPolicies.mp hq).2 with h | ⟨hne, he⟩
  · exact absurd h hns
  · rwa [← he]

/-- Of two calls under their locks only one can record what the other counts. -/
theorem RpmInv.exclusive (h : RpmInv quotas calls m locked rows clock) {i j : ι} {s s' : String} {b : Bool}
    {r : QuotaDecisionRecord} (hi : (m i).lock = some s) (hj : (m j).lock = some s')
    (hactor : r.actor = (calls i).principal.subject) (hteam : r.team = (calls i).principal.team)
    (hc : Counts quotas (calls j).principal b) (hr : quotaRow (calls j).principal b r = true) : j = i := by
  cases b with
  | true =>
    have hsub := (quotaRow_subject.mp hr).2
    rw [hactor] at hsub
    exact h.alone j i s' s hj hi hsub hc.limited
  | false =>
    have ht := (quotaRow_team.mp hr).2
    rw [hteam] at ht
    have hs := h.scope i s hi
    have hs' := h.scope j s' hj
    rw [← quotaAdmissionScope_congr ht.symm hc.team] at hs
    rw [hs'] at hj
    rw [hs] at hi
    exact h.locks.own j i _ hj hi

/-- The call that records a row has read, for each policy that counts the row, fewer rows than
the policy's limit. -/
theorem RpmInv.inside (h : RpmInv quotas calls m locked rows clock) (hmix : SubjectOrTeam quotas calls)
    {i j : ι} {s : String} {q : QuotaConfig} {r : QuotaDecisionRecord} {l : Call}
    (hl : l.mark = m i) (hi : (m i).lock = some s) (hin : (m i).seen.inserted = none)
    (hactor : r.actor = (calls i).principal.subject) (hteam : r.team = (calls i).principal.team)
    (hat : (m i).seen.now = some r.at_)
    (hread : ∀ q ∈ matchingQuotaPolicies quotas (calls i).principal, 0 < q.requestsPerMinute →
      Inside (calls i).principal q l)
    (hq : q ∈ quotas) (hpos : 0 < q.requestsPerMinute) (hqj : q ∈ matchingQuotaPolicies quotas (calls j).principal)
    (hr : quotaRow (calls j).principal (quotaIsSubjectScoped q (calls j).principal) r = true) :
    hitsSince (·.at_) (quotaRow (calls j).principal (quotaIsSubjectScoped q (calls j).principal)) rows
      (r.at_ - minute) < q.requestsPerMinute := by
  have hkey : q ∈ matchingQuotaPolicies quotas (calls i).principal ∧
      quotaIsSubjectScoped q (calls i).principal = quotaIsSubjectScoped q (calls j).principal ∧
      quotaRow (calls i).principal (quotaIsSubjectScoped q (calls j).principal) =
        quotaRow (calls j).principal (quotaIsSubjectScoped q (calls j).principal) := by
    cases hb : quotaIsSubjectScoped q (calls j).principal with
    | true =>
      rw [hb] at hr
      have hsub := (quotaRow_subject.mp hr).2
      rw [hactor] at hsub
      have hqs := quotaIsSubjectScoped_iff.mp hb
      refine ⟨mem_matchingQuotaPolicies.mpr ⟨hq, .inl (hqs.trans hsub.symm)⟩, ?_, ?_⟩
      · exact quotaIsSubjectScoped_iff.mpr (hqs.trans hsub.symm)
      · funext x; simp [quotaRow, hsub]
    | false =>
      rw [hb] at hr
      have ht := (quotaRow_team.mp hr).2
      rw [hteam] at ht
      have hns : ¬ q.subject = (calls j).principal.subject := fun e => by
        rw [quotaIsSubjectScoped_iff.mpr e] at hb; cases hb
      obtain ⟨hne, hqt⟩ := (mem_matchingQuotaPolicies.mp hqj).2.resolve_left hns
      refine ⟨mem_matchingQuotaPolicies.mpr ⟨hq, .inr ⟨hne, hqt.trans ht.symm⟩⟩, ?_, ?_⟩
      · cases hi' : quotaIsSubjectScoped q (calls i).principal with
        | false => rfl
        | true =>
          have hs := hmix q hq hpos hne i j (ht.trans hqt.symm) hqt.symm (quotaIsSubjectScoped_iff.mp hi').symm
          exact absurd hs.symm hns
      · funext x; simp [quotaRow, ht]
  obtain ⟨hqi, hscoped, hrows⟩ := hkey
  obtain ⟨x, hx, hxs, hlt⟩ := hread q hqi hpos
  have hx' : x ∈ (m i).seen.readings := by rw [← hl]; exact hx
  obtain ⟨_, ⟨t, ht, hxt⟩, hn⟩ := h.reading i s hi hin x hx'
  rw [hat] at ht
  cases ht
  rw [hxs, hscoped, hrows] at hn
  have := hitsSince_mono (·.at_) (quotaRow (calls j).principal (quotaIsSubjectScoped q (calls j).principal)) rows
    (show x.to_ - minute ≤ r.at_ - minute by omega)
  omega

variable [DecidableEq ι]

theorem RpmInv.lock (h : RpmInv quotas calls m locked rows clock) {i : ι} {s : String}
    (hnone : (m i).lock = none) (hs : s = quotaAdmissionScope (calls i).principal) (hfree : locked s = false)
    (halone : ∀ j s', (m j).lock = some s' → (calls j).principal.subject = (calls i).principal.subject →
      RpmLimited quotas (calls i).principal.subject → s' = s) :
    RpmInv quotas calls (Function.update m i ⟨some s, {}⟩) (Function.update locked s true) rows clock := by
  have hnot : ∀ j, (m j).lock ≠ some s := by
    intro j hj
    have := h.locks.taken_of j s hj
    rw [hfree] at this
    cases this
  constructor
  · rw [comp_update_eq (fun x : Mark => x.lock)]
    exact h.locks.acquire hnone hfree
  · intro j s' hj
    by_cases hji : j = i
    · subst hji; simp at hj; subst hj; exact hs
    · rw [Function.update_of_ne hji] at hj; exact h.scope j s' hj
  · intro j k s₁ s₂ hj hk hsub hlim
    by_cases hji : j = i <;> by_cases hki : k = i
    · rw [hji, hki]
    · subst hji; simp [Function.update_of_ne hki] at hj hk
      rw [halone k s₂ hk hsub hlim] at hk
      exact absurd hk (hnot k)
    · subst hki; simp [Function.update_of_ne hji] at hj hk
      rw [hsub] at halone
      rw [halone j s₁ hj rfl hlim] at hj
      exact absurd hj (hnot j)
    · rw [Function.update_of_ne hji] at hj; rw [Function.update_of_ne hki] at hk
      exact h.alone j k s₁ s₂ hj hk hsub hlim
  · exact h.past
  · intro j t hj
    by_cases hji : j = i
    · subst hji; simp at hj
    · rw [Function.update_of_ne hji] at hj; exact h.now j t hj
  · intro j s' t hj hin hnow
    by_cases hji : j = i
    · subst hji; simp at hnow
    · rw [Function.update_of_ne hji] at hj hin hnow; exact h.fresh j s' t hj hin hnow
  · intro j s' hj hin x hx
    by_cases hji : j = i
    · subst hji; simp at hx
    · rw [Function.update_of_ne hji] at hj hin hx ⊢; exact h.reading j s' hj hin x hx
  · exact h.limited

theorem RpmInv.unlock (h : RpmInv quotas calls m locked rows clock) {i : ι} {s : String}
    (hi : (m i).lock = some s) :
    RpmInv quotas calls (Function.update m i ⟨none, (m i).seen⟩) (Function.update locked s false) rows clock := by
  have hlock : ∀ {j s'}, (Function.update m i ⟨none, (m i).seen⟩ j).lock = some s' → (m j).lock = some s' := by
    intro j s' hj
    by_cases hji : j = i
    · subst hji; simp at hj
    · rwa [Function.update_of_ne hji] at hj
  have hseen : ∀ j, (Function.update m i ⟨none, (m i).seen⟩ j).seen = (m j).seen := by
    intro j
    by_cases hji : j = i
    · subst hji; simp
    · rw [Function.update_of_ne hji]
  constructor
  · rw [comp_update_eq (fun x : Mark => x.lock)]
    exact h.locks.release hi
  · intro j s' hj
    exact h.scope j s' (hlock hj)
  · intro j k s₁ s₂ hj hk
    exact h.alone j k s₁ s₂ (hlock hj) (hlock hk)
  · exact h.past
  · intro j t hj
    rw [hseen] at hj
    exact h.now j t hj
  · intro j s' t hj hin hnow
    rw [hseen] at hin hnow
    exact h.fresh j s' t (hlock hj) hin hnow
  · intro j s' hj hin
    rw [hseen] at hin ⊢
    exact h.reading j s' (hlock hj) hin
  · exact h.limited

/-- An operation that leaves `i`'s lock and the tables as they are keeps all but
the facts about what `i` has seen. -/
theorem RpmInv.see (h : RpmInv quotas calls m locked rows clock) {i : ι} (seen : Seen) {clock' : Int}
    (hclock : clock ≤ clock') (hnow : ∀ t, seen.now = some t → t ≤ clock')
    (hfresh : ∀ s t, (m i).lock = some s → seen.inserted = none → seen.now = some t →
      ∀ b, Counts quotas (calls i).principal b → ∀ r ∈ rows, quotaRow (calls i).principal b r = true → r.at_ < t)
    (hreading : ∀ s, (m i).lock = some s → seen.inserted = none → ∀ x ∈ seen.readings,
      Counts quotas (calls i).principal x.subjectScoped ∧ (∃ t, seen.now = some t ∧ x.to_ ≤ t) ∧
      hitsSince (·.at_) (quotaRow (calls i).principal x.subjectScoped) rows (x.to_ - minute) ≤ x.admitted) :
    RpmInv quotas calls (Function.update m i ⟨(m i).lock, seen⟩) locked rows clock' := by
  have hlock : ∀ j, (Function.update m i ⟨(m i).lock, seen⟩ j).lock = (m j).lock := by
    intro j
    by_cases hji : j = i
    · subst hji; simp
    · rw [Function.update_of_ne hji]
  constructor
  · rw [funext hlock]; exact h.locks
  · intro j s hj; rw [hlock] at hj; exact h.scope j s hj
  · intro j k s s' hj hk; rw [hlock] at hj hk; exact h.alone j k s s' hj hk
  · exact fun r hr => le_trans (h.past r hr) hclock
  · intro j t hj
    by_cases hji : j = i
    · subst hji; simp at hj; exact hnow t hj
    · rw [Function.update_of_ne hji] at hj; exact le_trans (h.now j t hj) hclock
  · intro j s t hj hin ht
    rw [hlock] at hj
    by_cases hji : j = i
    · subst hji; simp at hin ht; exact hfresh s t hj hin ht
    · rw [Function.update_of_ne hji] at hin ht; exact h.fresh j s t hj hin ht
  · intro j s hj hin
    rw [hlock] at hj
    by_cases hji : j = i
    · subst hji; simp at hin ⊢; exact hreading s hj hin
    · rw [Function.update_of_ne hji] at hin ⊢; exact h.reading j s hj hin
  · exact h.limited

theorem RpmInv.insert (h : RpmInv quotas calls m locked rows clock) (hmix : SubjectOrTeam quotas calls)
    {i : ι} {s : String} {r : QuotaDecisionRecord} {l : Call}
    (hl : l.mark = m i) (hi : (m i).lock = some s) (hin : (m i).seen.inserted = none)
    (hactor : r.actor = (calls i).principal.subject) (hteam : r.team = (calls i).principal.team)
    (hat : (m i).seen.now = some r.at_)
    (hread : r.allowed = true → ∀ q ∈ matchingQuotaPolicies quotas (calls i).principal,
      0 < q.requestsPerMinute → Inside (calls i).principal q l) :
    RpmInv quotas calls (Function.update m i ⟨(m i).lock, { (m i).seen with inserted := some r }⟩) locked
      (rows ++ [r]) clock := by
  have h' : RpmInv quotas calls (Function.update m i ⟨(m i).lock, { (m i).seen with inserted := some r }⟩)
      locked rows clock :=
    h.see _ le_rfl (h.now i) (fun _ _ _ hn => by simp at hn) (fun _ _ hn => by simp at hn)
  have hmi : ∀ {j}, (Function.update m i ⟨(m i).lock, { (m i).seen with inserted := some r }⟩ j).seen.inserted =
      none → j ≠ i := by
    intro j hj e
    subst e
    simp at hj
  -- What another call under its lock counts, `r` is none of.
  have hother : ∀ {j s' b}, j ≠ i →
      (Function.update m i ⟨(m i).lock, { (m i).seen with inserted := some r }⟩ j).lock = some s' →
      Counts quotas (calls j).principal b → quotaRow (calls j).principal b r = false := by
    intro j s' b hji hj hc
    rw [Function.update_of_ne hji] at hj
    by_contra hr
    rw [Bool.not_eq_false] at hr
    exact hji (h.exclusive hi hj hactor hteam hc hr)
  constructor
  · exact h'.locks
  · exact h'.scope
  · exact h'.alone
  · intro x hx
    rcases List.mem_append.mp hx with hx | hx
    · exact h.past x hx
    · rw [List.mem_singleton.mp hx]; exact h.now i _ hat
  · exact h'.now
  · intro j s' t hj hnone ht b hc x hx hrow
    rcases List.mem_append.mp hx with hx | hx
    · exact h'.fresh j s' t hj hnone ht b hc x hx hrow
    · rw [List.mem_singleton.mp hx, hother (hmi hnone) hj hc] at hrow
      cases hrow
  · intro j s' hj hnone x hx
    obtain ⟨hc, ht, hn⟩ := h'.reading j s' hj hnone x hx
    refine ⟨hc, ht, ?_⟩
    rwa [hitsSince_snoc_of_not_hit (hother (hmi hnone) hj hc)]
  · intro q hq hpos j hqj
    refine .snoc (h.limited q hq hpos j hqj) fun hr => ?_
    have hall : r.allowed = true := by
      simp only [quotaRow, Bool.and_eq_true] at hr
      exact hr.1
    exact h.inside hmix hl hi hin hactor hteam hat (hread hall) hq hpos hqj hr

theorem RpmInv.read (h : RpmInv quotas calls m locked rows clock) {i : ι} {b : Bool} {t : Int} {n : Nat}
    (hin : (m i).seen.inserted = none) (hnow : (m i).seen.now = some t) (hc : Counts quotas (calls i).principal b)
    (hn : n = rows.countP fun r =>
      quotaRow (calls i).principal b r && decide (t - minute ≤ r.at_) && decide (r.at_ < t)) :
    RpmInv quotas calls (Function.update m i ⟨(m i).lock,
      { (m i).seen with readings := (m i).seen.readings ++ [⟨b, t, n⟩] }⟩) locked rows clock := by
  refine h.see _ le_rfl (h.now i) (h.fresh i) ?_
  intro s' hs hnone x hx
  rcases List.mem_append.mp hx with hx | hx
  · exact h.reading i s' hs hnone x hx
  · rw [List.mem_singleton.mp hx]
    refine ⟨hc, ⟨t, hnow, le_rfl⟩, ?_⟩
    rw [hn]
    refine List.countP_mono_left fun r hr he => ?_
    simp only [Bool.and_eq_true, decide_eq_true_eq] at he ⊢
    exact ⟨⟨he.1, he.2⟩, h.fresh i s' t hs hin hnow b hc r hr he.1⟩

/-! ## Runs -/

def RpmInvAt (quotas : List QuotaConfig) (calls : ι → Admission) (loc : ι → Call) (g : Shared) : Prop :=
  RpmInv quotas calls (fun i => (loc i).mark) g.locked g.tables.decisions g.clock

omit [DecidableEq ι] in
theorem rpmInv_start (st : Storage) : RpmInvAt quotas calls (admissionStart st quotas calls).loc
    (admissionStart st quotas calls).sh := by
  constructor
  · exact Owned.init
  all_goals simp [admissionStart, Call.mark, Limited.nil]

/-- Answers that change neither a lock nor what a call has seen nor the decisions. -/
theorem RpmInvAt.frame {loc : ι → Call} {g g' : Shared} (h : RpmInvAt quotas calls loc g) {i : ι} {l : Call}
    (hl : l.mark = (loc i).mark) (hlocked : g'.locked = g.locked)
    (hrows : g'.tables.decisions = g.tables.decisions) (hclock : g'.clock = g.clock) :
    RpmInvAt quotas calls (Function.update loc i l) g' := by
  unfold RpmInvAt
  rw [comp_update_eq Call.mark, hl, Function.update_eq_self, hlocked, hrows, hclock]
  exact h

theorem rpmInv_answer (st : Storage) (hmix : SubjectOrTeam quotas calls) (c : StoreConf ι) (i : ι)
    (o : StoreOp) (a : StoreSig.Ans o) (h : RpmInvAt quotas calls c.loc c.sh)
    (hΦ : Admitting st quotas (calls i).principal o (c.loc i))
    (hok : SubjectAlone quotas calls c (.answer i o a)) (hcan : o.can st c.sh a = true) :
    RpmInvAt quotas calls (Function.update c.loc i (o.loc a (c.loc i))) (o.sh a (c.loc i).held c.sh) := by
  have hlock : ∀ b, (guarded st (calls i).principal b).lock = some (quotaAdmissionScope (calls i).principal) :=
    fun _ => rfl
  cases o with
  | lockLocal s =>
    obtain ⟨hs, hl⟩ := hΦ
    have := RpmInv.lock h (by rw [hl]; rfl) hs (by simpa [StoreOp.can] using hcan) (hok (i, s) rfl)
    unfold RpmInvAt
    rw [comp_update_eq Call.mark, hl]
    exact this
  | unlockLocal s =>
    obtain ⟨hs, hl⟩ := hΦ
    have hi : (c.loc i).mark.lock = some s := by rw [hs, Call.mark, hl]
    unfold RpmInvAt
    rw [comp_update_eq Call.mark]
    exact RpmInv.unlock h hi
  | now =>
    have hlt : c.sh.clock < a := by simpa [StoreOp.can] using hcan
    have := RpmInv.see h (i := i) { (c.loc i).seen with now := some a } (le_of_lt hlt)
      (fun t ht => by cases ht; exact le_rfl)
      (fun s t _ _ ht b _ r hr _ => by cases ht; exact lt_of_le_of_lt (h.past r hr) hlt)
      (fun s hs hin x hx => by
        obtain ⟨hc, ⟨t, ht, hxt⟩, hn⟩ := h.reading i s hs hin x hx
        exact ⟨hc, ⟨a, rfl, by have := h.now i t ht; omega⟩, hn⟩)
    unfold RpmInvAt
    rw [comp_update_eq Call.mark]
    exact this
  | allowedQuotaDecisionCount p b t₁ t₂ =>
    obtain ⟨hheld, hin, hp, hnow, ht, hc⟩ := hΦ
    cases a with
    | error err => exact h.frame rfl rfl rfl rfl
    | ok n =>
      have hn : n = c.sh.tables.allowedQuotaDecisionCount p b t₁ t₂ := by simpa [StoreOp.can] using hcan
      rw [hp, ht] at hn
      have := RpmInv.read h hin hnow hc hn
      unfold RpmInvAt
      rw [comp_update_eq Call.mark]
      exact this
  | insertQuotaDecision r =>
    obtain ⟨hheld, hin, hactor, hteam, hnow, hread⟩ := hΦ
    cases a with
    | error err => exact h.frame rfl rfl rfl rfl
    | ok _ =>
      have hi : (c.loc i).mark.lock = some (quotaAdmissionScope (calls i).principal) := by
        rw [Call.mark, hheld]; exact hlock true
      have := RpmInv.insert h hmix (l := c.loc i) rfl hi hin hactor hteam hnow hread
      unfold RpmInvAt
      rw [comp_update_eq Call.mark]
      exact this
  | acquireGuard => cases a <;> exact h.frame rfl rfl rfl rfl
  | advisoryLock k => cases a <;> exact h.frame rfl rfl rfl rfl
  | advisoryUnlock k => cases a <;> exact h.frame rfl rfl rfl rfl
  | acquireQuery => cases a <;> exact h.frame rfl rfl rfl rfl
  | usageTokensTotal => cases a <;> exact h.frame rfl rfl rfl rfl
  | returnGuard => exact h.frame rfl rfl rfl rfl
  | detachGuard => exact h.frame rfl rfl rfl rfl
  | finishQuery => exact h.frame rfl rfl rfl rfl
  | insertUsageEvent => exact absurd hΦ id
  | insertAuditEvent => exact absurd hΦ id
  | insertRequestLineageJoin => exact absurd hΦ id

/-- A run that never grants one subject two locks at once keeps every policy's limit. -/
theorem admitRequest_rpmSafe (st : Storage) (quotas : List QuotaConfig) (calls : ι → Admission)
    (hmix : SubjectOrTeam quotas calls) {c : StoreConf ι}
    (hr : Reach (storeWorld ι st) (SubjectAlone quotas calls) (admissionStart st quotas calls) c) :
    RpmSafe quotas calls c := by
  have h := (admissionStart_typed st quotas calls).pool (J := RpmInvAt quotas calls) (rpmInv_start st)
    (fun c i o a h hΦ hok hcan => rpmInv_answer st hmix c i o a h hΦ hok hcan)
    (fun c i o _ _ _ hd => by cases hd) (fun c e => e.elim) hr
  intro q hq hpos i hqi t
  exact (h.limited q hq hpos i hqi).hitsWithin_le t

instance [Fintype ι] (c : StoreConf ι) (l : Label StoreSig ι Empty) : Decidable (SubjectAlone quotas calls c l) :=
  inferInstanceAs (Decidable (∀ w ∈ wantedLock l, ∀ j, ∀ s ∈ (c.loc j).held.lock,
    (calls j).principal.subject = (calls w.1).principal.subject →
    (∃ q ∈ quotas, 0 < q.requestsPerMinute ∧ q.subject = (calls w.1).principal.subject) → s = w.2))

end

/-! ## One subject in two teams -/

/-- The next `n` calls of `i`, each answered as the storage has it. -/
def turns {ι : Type} (i : ι) (n : Nat) : List (Choice StoreSig ι Shared Empty) :=
  List.replicate n (.answer i fun o g => some (o.answer g))

def aliceOnce : QuotaConfig where
  subject := "alice"
  team := ""
  requestsPerMinute := 1
  tokensPerDay := 0
  maxConcurrency := 0
  allowedModels := []

def aliceIn (team : String) : Admission where
  principal := { subject := "alice", team := team, scopes := ["chat"] }
  model := "llama"
  requestId := none
  policyJson := []

def sqlite : Storage where
  dialect := .sqlite
  maxConnections := 5
  advisoryLockKeyForScope _ := 0

def twoTeams (research : Bool) : Admission := aliceIn (if research then "research" else "platform")

/-- Both calls read a count of zero before either records its row. -/
theorem twoTeams_exceed :
    ∃ c, Reach (storeWorld Bool sqlite) (fun _ _ => True) (admissionStart sqlite [aliceOnce] twoTeams) c ∧
      ¬ RpmSafe [aliceOnce] twoTeams c := by
  have hrun : ∃ c, Reach (storeWorld Bool sqlite) (fun _ _ => True)
      (admissionStart sqlite [aliceOnce] twoTeams) c ∧
      1 < hitsWithin (·.at_) (quotaRow (twoTeams false).principal true) c.sh.tables.decisions 0 (0 + minute) := by
    refine Conf.exists_reach (turns true 5 ++ turns false 5 ++ turns true 5 ++ turns false 5) ?_
    decide
  obtain ⟨c, hc, hrows⟩ := hrun
  refine ⟨c, hc, fun hsafe => ?_⟩
  have hle : hitsWithin (·.at_) (quotaRow (twoTeams false).principal true) c.sh.tables.decisions 0 (0 + minute) ≤ 1 :=
    hsafe aliceOnce (by simp) (by decide) false (by decide) 0
  omega

theorem rpmSafe_sameTeam :
    ∃ c, Reach (storeWorld Bool sqlite) (SubjectAlone [aliceOnce] fun _ => aliceIn "platform")
        (admissionStart sqlite [aliceOnce] fun _ => aliceIn "platform") c ∧
      c.sh.tables.decisions.map (·.allowed) = [true, false] ∧
      RpmSafe [aliceOnce] (fun _ : Bool => aliceIn "platform") c := by
  have hrun : ∃ c, Reach (storeWorld Bool sqlite) (SubjectAlone [aliceOnce] fun _ => aliceIn "platform")
      (admissionStart sqlite [aliceOnce] fun _ => aliceIn "platform") c ∧
      c.sh.tables.decisions.map (·.allowed) = [true, false] := by
    refine Conf.exists_reach (turns true 10 ++ turns false 10) ?_
    decide
  obtain ⟨c, hc, hrows⟩ := hrun
  refine ⟨c, hc, hrows, admitRequest_rpmSafe sqlite _ _ ?_ hc⟩
  intro q _ _ _ i j _ _ hi
  exact hi

end Llmctl
