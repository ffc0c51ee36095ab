import Llmctl.Async.Owned
import Llmctl.Server.Auth

/-!
# How many credentials a source gets evaluated

The check and the recording of a failure are two critical sections with the evaluation
between them. A window's count and the calls under way between the two stay within the
limit (`Throttled`) as long as no call passes the check on the strength of a count that
these calls have yet to raise.
-/

namespace Llmctl

open Async

/-! ## The table of windows -/

namespace AuthFailures

variable {failures : AuthFailures} {key key' : String} {w : AuthFailureWindow}

theorem get_remove (h : key ≠ key') : (failures.remove key').get key = failures.get key := by
  unfold get remove
  rw [List.find?_filter]
  congr 2
  funext e
  by_cases he : e.1 = key
  · simp [he, h]
  · simp [he]

@[simp] theorem get_insert_self : (failures.insert key w).get key = some w := by
  simp [get, insert]

theorem get_insert (h : key ≠ key') : (failures.insert key' w).get key = failures.get key := by
  have hhead : (failures.insert key' w).get key = (failures.remove key').get key := by
    simp [get, insert, Ne.symm h]
  rw [hhead, get_remove h]

theorem get_prune (pruned : List String) :
    (failures.prune pruned).get key = if key ∈ pruned then none else failures.get key := by
  unfold get prune
  rw [List.find?_filter]
  split
  · rename_i hmem
    refine Option.map_eq_none_iff.mpr (List.find?_eq_none.mpr fun e _ he => ?_)
    simp only [decide_eq_true_eq] at he
    exact he.1 (he.2 ▸ hmem)
  · rename_i hmem
    congr 2
    funext e
    by_cases he : e.1 = key
    · simp [he, hmem]
    · simp [he]

theorem mem_of_get (h : failures.get key = some w) : (key, w) ∈ failures := by
  unfold get at h
  obtain ⟨⟨key', w'⟩, he, rfl⟩ := Option.map_eq_some_iff.mp h
  have hk : key' = key := by simpa using List.find?_some he
  subst hk
  exact List.mem_of_find?_eq_some he

end AuthFailures

namespace AuthFailureWindow

theorem stale_iff {w : AuthFailureWindow} {now : Nat} : w.stale now = true ↔ w.started + authWindow ≤ now := by
  have : 0 < authWindow := by decide
  simp only [stale, decide_eq_true_eq]
  omega

theorem failed_count {w : AuthFailureWindow} {limit : UInt32} (h : w.count.toNat + 1 ≤ limit.toNat) :
    w.failed.count.toNat = w.count.toNat + 1 := by
  have hlt := limit.toNat_lt
  have hmin : min (w.count.toNat + 1) (2 ^ 32 - 1) = w.count.toNat + 1 := by omega
  rw [failed, hmin, UInt32.toNat_ofNat_of_lt' (by show _ < 2 ^ 32; omega)]

end AuthFailureWindow

/-! ## Counts -/

def AuthFailureWindow.countOf : Option AuthFailureWindow → Nat
  | some w => w.count.toNat
  | none => 0

namespace AuthAttempt

variable (key : String) (start : Nat) (l : AuthAttempt)

/-- Whether the credential was evaluated in the window that begins at `start`. -/
def evaluatedIn : Bool := l.key = key && l.evaluated.any fun t => decide (start ≤ t ∧ t < start + authWindow)

def hit : Nat := if l.evaluatedIn key start then 1 else 0

def recordedIn : Nat := if l.evaluatedIn key start && l.recorded then 1 else 0

/-- Whether the call has passed the check and not recorded its outcome. -/
def pending : Nat := if l.key = key ∧ l.passed = true ∧ l.recorded = false then 1 else 0

def Before (clock : Nat) (l : AuthAttempt) : Prop := ∀ t ∈ l.evaluated, t ≤ clock

def Passed (l : AuthAttempt) : Prop := l.evaluated ≠ none → l.passed = true

/-- What the source's calls have recorded was evaluated before `clock`. -/
def RecordedBefore (key : String) (clock : Nat) (l : AuthAttempt) : Prop :=
  l.key = key → l.recorded = true → ∀ t ∈ l.evaluated, t < clock

end AuthAttempt

section
variable {ι : Type} [Fintype ι]

/-- What the counts of a source's window have to do with its calls; `start` is a window's
whose evaluations are followed. -/
structure Throttled (key : String) (limit : UInt32) (start : Option Nat) (loc : ι → AuthAttempt) (w : Option AuthFailureWindow)
    (clock : Nat) : Prop where
  past : ∀ i, (loc i).Before clock
  passed : ∀ i, (loc i).Passed
  within : AuthFailureWindow.countOf w + ∑ i, (loc i).pending key ≤ limit.toNat
  absent : w = none → ∀ i, (loc i).RecordedBefore key clock
  since : ∀ w₀ ∈ w, w₀.started ≤ clock ∧ ∑ i, (loc i).recordedIn key w₀.started ≤ w₀.count.toNat ∧
    ∀ i, (loc i).RecordedBefore key (w₀.started + authWindow)
  followed : ∀ s ∈ start, (s + authWindow ≤ clock ∧ ∑ i, (loc i).hit key s ≤ limit.toNat) ∨
    (s ≤ clock ∧ (∀ w₀ ∈ w, s ≤ w₀.started) ∧ ∑ i, (loc i).recordedIn key s ≤ AuthFailureWindow.countOf w)

variable {key : String} {limit : UInt32} {start : Option Nat} {loc : ι → AuthAttempt} {w : Option AuthFailureWindow}
  {w₀ : AuthFailureWindow} {clock clock' : Nat}

theorem Throttled.hits_le (h : Throttled key limit start loc w clock) {s : Nat}
    (hs : ∑ i, (loc i).recordedIn key s ≤ AuthFailureWindow.countOf w) : ∑ i, (loc i).hit key s ≤ limit.toNat := by
  have hsplit : ∑ i, (loc i).hit key s ≤ ∑ i, ((loc i).recordedIn key s + (loc i).pending key) := by
    refine Finset.sum_le_sum fun i _ => ?_
    have hpassed := h.passed i
    unfold AuthAttempt.hit AuthAttempt.recordedIn AuthAttempt.pending
    cases hin : (loc i).evaluatedIn key s with
    | false => simp
    | true =>
      simp only [AuthAttempt.evaluatedIn, Bool.and_eq_true, decide_eq_true_eq] at hin
      have hne : (loc i).evaluated ≠ none := by
        intro hnone
        rw [hnone] at hin
        cases hin.2
      cases hrec : (loc i).recorded with
      | true => simp
      | false => simp [hin.1, hpassed hne]
  rw [Finset.sum_add_distrib] at hsplit
  have := h.within
  omega

/-- A window that has run out has its evaluations. -/
theorem Throttled.close (h : Throttled key limit start loc w clock) (hclock : ∀ w₀ ∈ w, w₀.started + authWindow ≤ clock)
    (hw : w ≠ none) : ∀ s ∈ start, s + authWindow ≤ clock ∧ ∑ i, (loc i).hit key s ≤ limit.toNat := by
  intro s hs
  obtain ⟨w₀, hw₀⟩ := Option.ne_none_iff_exists'.mp hw
  rcases h.followed s hs with hclosed | ⟨-, hopen, hcount⟩
  · exact hclosed
  · have := hopen w₀ hw₀
    have := hclock w₀ hw₀
    exact ⟨by omega, h.hits_le hcount⟩

theorem Throttled.later (h : Throttled key limit start loc w clock) (hle : clock ≤ clock') :
    Throttled key limit start loc w clock' where
  past i t ht := le_trans (h.past i t ht) hle
  passed := h.passed
  within := h.within
  absent hw i hi hr t ht := lt_of_lt_of_le (h.absent hw i hi hr t ht) hle
  since w₀ hw₀ := ⟨le_trans (h.since w₀ hw₀).1 hle, (h.since w₀ hw₀).2⟩
  followed s hs := by
    rcases h.followed s hs with ⟨hclosed, hhits⟩ | ⟨hpast, hopen⟩
    · exact .inl ⟨by omega, hhits⟩
    · exact .inr ⟨by omega, hopen⟩

/-- What `prune_stale_auth_windows` removes counts for nothing. -/
theorem Throttled.drop (h : Throttled key limit start loc (some w₀) clock) (hw : w₀.count = 0 ∨ w₀.stale clock = true) :
    Throttled key limit start loc none clock where
  past := h.past
  passed := h.passed
  within := le_trans (Nat.add_le_add_right (Nat.zero_le _) _) h.within
  absent _ i hi hr t ht := by
    obtain ⟨hstart, hcount, hbefore⟩ := h.since w₀ rfl
    have hlt := hbefore i hi hr t ht
    rcases hw with hzero | hstale
    · rw [hzero] at hcount
      have hnone := le_trans (Finset.single_le_sum (f := fun i => (loc i).recordedIn key w₀.started)
        (fun _ _ => Nat.zero_le _) (Finset.mem_univ i)) hcount
      have hout : ¬ w₀.started ≤ t := by
        intro hge
        have ht' : (loc i).evaluated = some t := ht
        simp [AuthAttempt.recordedIn, AuthAttempt.evaluatedIn, hi, hr, ht', hge, hlt] at hnone
      omega
    · have := AuthFailureWindow.stale_iff.mp hstale
      omega
  since := nofun
  followed s hs := by
    rcases hw with hzero | hstale
    · rcases h.followed s hs with hclosed | ⟨hpast, -, hcount⟩
      · exact .inl hclosed
      · refine .inr ⟨hpast, nofun, ?_⟩
        simpa [AuthFailureWindow.countOf, hzero] using hcount
    · refine .inl (h.close (fun w₁ hw₁ => ?_) nofun s hs)
      cases hw₁
      exact AuthFailureWindow.stale_iff.mp hstale

theorem Throttled.fresh (h : Throttled key limit start loc none clock) :
    Throttled key limit start loc (some ⟨clock, 0⟩) clock where
  past := h.past
  passed := h.passed
  within := h.within
  absent := nofun
  since w₁ hw₁ := by
    cases hw₁
    have hbefore := h.absent rfl
    refine ⟨Nat.le_refl _, ?_, fun i hi hr t ht => lt_of_lt_of_le (hbefore i hi hr t ht) (Nat.le_add_right _ _)⟩
    have hzero : ∀ i, (loc i).recordedIn key clock = 0 := by
      intro i
      unfold AuthAttempt.recordedIn
      by_cases hr : (loc i).recorded = true ∧ (loc i).key = key
      · cases he : (loc i).evaluated with
        | none => simp [AuthAttempt.evaluatedIn, he]
        | some t =>
          have hlt := hbefore i hr.2 hr.1 t he
          have hnot : ¬ clock ≤ t := by omega
          simp [AuthAttempt.evaluatedIn, he, hnot]
      · rw [if_neg]
        simp only [AuthAttempt.evaluatedIn, Bool.and_eq_true, decide_eq_true_eq]
        exact fun hall => hr ⟨hall.2, hall.1.1⟩
    simp [hzero]
  followed s hs := by
    rcases h.followed s hs with hclosed | ⟨hpast, -, hcount⟩
    · exact .inl hclosed
    · refine .inr ⟨hpast, fun w₁ hw₁ => ?_, hcount⟩
      cases hw₁
      exact hpast

theorem Throttled.restart (h : Throttled key limit start loc (some w₀) clock) {r : Reads} (hle : clock ≤ r.elapsed)
    (hle' : r.elapsed ≤ r.restart) : Throttled key limit start loc (some (w₀.restarted r)) r.restart := by
  unfold AuthFailureWindow.restarted
  split
  · rename_i hstale
    exact (((h.later hle).drop (.inr hstale)).later hle').fresh
  · exact h.later (le_trans hle hle')

/-! ## The calls -/

variable [DecidableEq ι] {i : ι} {l : AuthAttempt}

/-- A step of a call that has not recorded its outcome, and does not by it. -/
theorem Throttled.update (h : Throttled key limit start loc w clock) (hrec : (loc i).recorded = false) (hrec' : l.recorded = false)
    (hpast : l.Before clock) (hpassed : l.Passed)
    (hwithin : l.pending key ≤ (loc i).pending key ∨
      AuthFailureWindow.countOf w + ∑ j, (loc j).pending key < limit.toNat)
    (hhit : ∀ s ∈ start, s + authWindow ≤ clock → l.hit key s ≤ (loc i).hit key s) :
    Throttled key limit start (Function.update loc i l) w clock := by
  have hsame : ∀ s, ∑ j, (Function.update loc i l j).recordedIn key s = ∑ j, (loc j).recordedIn key s := by
    intro s
    have hsum := sum_update_add (AuthAttempt.recordedIn key s) loc i l
    have hzero : l.recordedIn key s = 0 ∧ (loc i).recordedIn key s = 0 := by simp [AuthAttempt.recordedIn, hrec, hrec']
    omega
  refine ⟨forall_update hpast h.past, forall_update hpassed h.passed, ?_, ?_, ?_, ?_⟩
  · have hsum := sum_update_add (AuthAttempt.pending key) loc i l
    have hone : l.pending key ≤ 1 := by unfold AuthAttempt.pending; split <;> omega
    have := h.within
    omega
  · intro hw
    exact forall_update (by simp [AuthAttempt.RecordedBefore, hrec']) (h.absent hw)
  · intro w₀ hw₀
    rw [hsame]
    obtain ⟨hstart, hcount, hbefore⟩ := h.since w₀ hw₀
    exact ⟨hstart, hcount, forall_update (by simp [AuthAttempt.RecordedBefore, hrec']) hbefore⟩
  · intro s hs
    rw [hsame]
    rcases h.followed s hs with ⟨hclosed, hhits⟩ | hopen
    · have hsum := sum_update_add (AuthAttempt.hit key s) loc i l
      have := hhit s hs hclosed
      exact .inl ⟨hclosed, by omega⟩
    · exact .inr hopen

/-- The call of another source records its outcome. -/
theorem Throttled.recordOther (h : Throttled key limit start loc w clock) (hkey : (loc i).key ≠ key) :
    Throttled key limit start (Function.update loc i { loc i with recorded := true }) w clock := by
  have hsame : ∀ φ : AuthAttempt → Nat, (∀ l : AuthAttempt, l.key ≠ key → φ l = 0) →
      ∑ j, φ (Function.update loc i { loc i with recorded := true } j) = ∑ j, φ (loc j) := by
    intro φ hφ
    have hsum := sum_update_add φ loc i { loc i with recorded := true }
    have hzero := hφ (loc i) hkey
    have hzero' := hφ { loc i with recorded := true } hkey
    omega
  have hpending := hsame (AuthAttempt.pending key) (fun l hl => by simp [AuthAttempt.pending, hl])
  have hrecorded := fun s => hsame (AuthAttempt.recordedIn key s) (fun l hl => by
    simp [AuthAttempt.recordedIn, AuthAttempt.evaluatedIn, hl])
  have hhits := fun s => hsame (AuthAttempt.hit key s) (fun l hl => by simp [AuthAttempt.hit, AuthAttempt.evaluatedIn, hl])
  refine ⟨forall_update (h.past i) h.past, forall_update (h.passed i) h.passed, ?_, ?_, ?_, ?_⟩
  · rw [hpending]
    exact h.within
  · intro hw
    exact forall_update (fun hk => absurd hk hkey) (h.absent hw)
  · intro w₀ hw₀
    rw [hrecorded]
    obtain ⟨hstart, hcount, hbefore⟩ := h.since w₀ hw₀
    exact ⟨hstart, hcount, forall_update (fun hk => absurd hk hkey) hbefore⟩
  · intro s hs
    rw [hrecorded, hhits]
    exact h.followed s hs

/-- A call records the failure of a credential that was evaluated before the window's end. -/
theorem Throttled.record (h : Throttled key limit start loc (some w₀) clock) (hkey : (loc i).key = key) {t : Nat}
    (hl : (loc i).passed = true ∧ (loc i).evaluated = some t ∧ (loc i).recorded = false)
    (ht : t < w₀.started + authWindow) :
    Throttled key limit start (Function.update loc i { loc i with recorded := true }) (some w₀.failed) clock := by
  obtain ⟨hpassed, hev, hrec⟩ := hl
  have hpending : ∑ j, (Function.update loc i { loc i with recorded := true } j).pending key + 1 =
      ∑ j, (loc j).pending key := by
    have hsum := sum_update_add (AuthAttempt.pending key) loc i { loc i with recorded := true }
    have hone : (loc i).pending key = 1 := by simp [AuthAttempt.pending, hkey, hpassed, hrec]
    have hzero : AuthAttempt.pending key { loc i with recorded := true } = 0 := by simp [AuthAttempt.pending]
    omega
  have hcount : w₀.failed.count.toNat = w₀.count.toNat + 1 := by
    have hwithin : w₀.count.toNat + ∑ j, (loc j).pending key ≤ limit.toNat := h.within
    have hle : w₀.count.toNat + 1 ≤ limit.toNat := by omega
    exact AuthFailureWindow.failed_count hle
  have hrecorded : ∀ s, ∑ j, (Function.update loc i { loc i with recorded := true } j).recordedIn key s ≤
      ∑ j, (loc j).recordedIn key s + 1 := by
    intro s
    have hsum := sum_update_add (AuthAttempt.recordedIn key s) loc i { loc i with recorded := true }
    have hone : AuthAttempt.recordedIn key s { loc i with recorded := true } ≤ 1 := by
      unfold AuthAttempt.recordedIn
      split <;> omega
    omega
  obtain ⟨hstart, hsince, hbefore⟩ := h.since w₀ rfl
  refine ⟨forall_update (h.past i) h.past, forall_update (h.passed i) h.passed, ?_, nofun, ?_, ?_⟩
  · have hwithin : w₀.count.toNat + ∑ j, (loc j).pending key ≤ limit.toNat := h.within
    rw [← hpending] at hwithin
    simp only [AuthFailureWindow.countOf, hcount]
    rwa [Nat.add_assoc, Nat.add_comm 1]
  · intro w₁ hw₁
    cases hw₁
    refine ⟨hstart, ?_, forall_update (fun _ _ t' ht' => ?_) hbefore⟩
    · rw [hcount]
      exact le_trans (hrecorded _) (Nat.add_le_add_right hsince 1)
    · simp only [hev, Option.mem_def, Option.some.injEq] at ht'
      exact ht' ▸ ht
  · intro s hs
    have hhit : ∑ j, (Function.update loc i { loc i with recorded := true } j).hit key s = ∑ j, (loc j).hit key s := by
      have hsum := sum_update_add (AuthAttempt.hit key s) loc i { loc i with recorded := true }
      have hsame : AuthAttempt.hit key s { loc i with recorded := true } = (loc i).hit key s := rfl
      omega
    rw [hhit]
    rcases h.followed s hs with hclosed | ⟨hpast, hopen, hle⟩
    · exact .inl hclosed
    · refine .inr ⟨hpast, fun w₁ hw₁ => ?_, ?_⟩
      · cases hw₁
        exact hopen w₀ rfl
      · simp only [AuthFailureWindow.countOf, hcount] at hle ⊢
        exact le_trans (hrecorded _) (Nat.add_le_add_right hle 1)

end

/-! ## One call -/

section
variable {ι : Type} {sha256 : String → String} {cfg : SecurityConfig} {call : AuthCall} {i : ι}

def AuthCall.key (sha256 : String → String) (call : AuthCall) : String := authFailureKey sha256 call.sourceKey

def AuthCall.Valid (sha256 : String → String) (cfg : SecurityConfig) (call : AuthCall) : Prop :=
  ∃ utc principal, authenticate sha256 cfg utc call.headers = .ok principal

def Authenticating (sha256 : String → String) (cfg : SecurityConfig) (call : AuthCall) : AuthOp → AuthAttempt → Prop
  | .isLimited key limit, l => key = call.key sha256 ∧ limit = cfg.authFailureLimitPerMinute ∧ l = { key }
  | .authenticate _, l => l = { key := call.key sha256, passed := true }
  | .recordFailure key _, l => key = call.key sha256 ∧ ∃ t, l = { key, passed := true, evaluated := some t }
  | .recordSuccess key, l => key = call.key sha256 ∧ l.key = key ∧ call.Valid sha256 cfg

theorem isLimited_eq {key : String} {limit : UInt32} (h : limit ≠ 0) :
    AuthFailureLimiter.isLimited key limit =
      (do let answer ← Prog.op (S := AuthSig) (.isLimited key limit); pure answer.2) := if_neg h

theorem recordFailure_eq {key : String} {limit : UInt32} (h : limit ≠ 0) :
    AuthFailureLimiter.recordFailure key limit =
      (do let _ ← Prog.op (S := AuthSig) (.recordFailure key limit); pure ()) := if_neg h

theorem authenticateRequest_always (hlimit : cfg.authFailureLimitPerMinute ≠ 0) :
    Always (throttleWorld ι) i (Authenticating sha256 cfg call) (fun _ _ => True)
      (authenticateRequest sha256 cfg call.headers call.sourceKey) { key := call.key sha256 } := by
  simp only [authenticateRequest, isLimited_eq hlimit, recordFailure_eq hlimit]
  refine Always.op ⟨rfl, rfl, rfl⟩ fun answer _ _ => ?_
  obtain ⟨r, limited⟩ := answer
  cases limited with
  | true => trivial
  | false =>
    refine Always.op rfl fun e _ _ => ?_
    cases hres : authenticate sha256 cfg e.utc call.headers with
    | ok principal => exact Always.op ⟨rfl, rfl, e.utc, principal, hres⟩ fun _ _ _ => trivial
    | error err => exact Always.op ⟨rfl, e.instant, rfl⟩ fun _ _ _ => trivial

theorem throttleStart_typed [DecidableEq ι] (hlimit : cfg.authFailureLimitPerMinute ≠ 0) (calls : ι → AuthCall) :
    Typed (throttleWorld ι) (fun i => Authenticating sha256 cfg (calls i)) (fun _ _ _ => True)
      (throttleStart sha256 cfg calls) := by
  intro i p hp
  cases hp
  exact authenticateRequest_always hlimit

end

/-! ## Runs -/

section
variable {ι : Type} [Fintype ι]

/-- The failures that a check of `key` counts. -/
def Throttle.countAt (g : Throttle) (key : String) (r : Reads) : Nat :=
  AuthFailureWindow.countOf ((g.failures.get key).map (·.restarted r))

/-- A check that finds the count below the limit finds it so with the calls added that
have passed and not recorded their outcome yet. -/
def InTurn (key : String) (limit : UInt32) (c : ThrottleConf ι) : Label AuthSig ι Empty → Prop
  | .answer _ (.isLimited key' _) a => key' = key → c.sh.countAt key a.1 < limit.toNat →
      c.sh.countAt key a.1 + ∑ i, (c.loc i).pending key < limit.toNat
  | _ => True

/-- The credentials that were evaluated in the window of `key` that began at `start`. -/
def ThrottleConf.evaluations (c : ThrottleConf ι) (key : String) (start : Nat) : Nat :=
  ∑ i, (c.loc i).hit key start

variable [DecidableEq ι] {sha256 : String → String} {cfg : SecurityConfig} {calls : ι → AuthCall} {key : String}
  {start : Option Nat} {c : ThrottleConf ι} {i : ι}

theorem throttled_check (hlimit : cfg.authFailureLimitPerMinute ≠ 0)
    (h : Throttled key cfg.authFailureLimitPerMinute start c.loc (c.sh.failures.get key) c.sh.clock)
    {key' : String} {r : Reads} {limited : Bool} (hl : c.loc i = { key := key' })
    (hc : AuthOp.can c.sh (.isLimited key' cfg.authFailureLimitPerMinute) (r, limited) = true)
    (hok : key' = key → c.sh.countAt key r < cfg.authFailureLimitPerMinute.toNat →
      c.sh.countAt key r + ∑ i, (c.loc i).pending key < cfg.authFailureLimitPerMinute.toNat) :
    Throttled key cfg.authFailureLimitPerMinute start
      (Function.update c.loc i { key := key', passed := !limited })
      ((AuthOp.sh (.isLimited key' cfg.authFailureLimitPerMinute) (r, limited) c.sh).failures.get key) r.restart := by
  simp only [AuthOp.can, AuthOp.canRead, Bool.and_eq_true, decide_eq_true_eq, beq_iff_eq] at hc
  obtain ⟨⟨hclock, hins, hel⟩, hlimited⟩ := hc
  have hnext : Throttled key cfg.authFailureLimitPerMinute start c.loc
      ((AuthOp.sh (.isLimited key' cfg.authFailureLimitPerMinute) (r, limited) c.sh).failures.get key) r.restart ∧
      (key' = key → (AuthOp.sh (.isLimited key' cfg.authFailureLimitPerMinute) (r, limited) c.sh).failures.get key =
        (c.sh.failures.get key).map (·.restarted r)) := by
    simp only [AuthOp.sh]
    by_cases hk : key' = key
    · subst hk
      cases hw : c.sh.failures.get key' with
      | none =>
        simp only [hw] at h ⊢
        exact ⟨h.later (by omega), fun _ => rfl⟩
      | some w =>
        rw [hw] at h
        simp only [AuthFailures.get_insert_self]
        exact ⟨h.restart (by omega) hel, fun _ => rfl⟩
    · refine ⟨?_, fun he => absurd he hk⟩
      cases hw : c.sh.failures.get key' with
      | none => exact h.later (by omega)
      | some w =>
        simp only [AuthFailures.get_insert (Ne.symm hk)]
        exact h.later (by omega)
  refine hnext.1.update (by rw [hl]) rfl nofun (fun hne => absurd rfl hne) ?_ (by simp [AuthAttempt.hit, AuthAttempt.evaluatedIn])
  by_cases hpass : limited = false ∧ key' = key
  · obtain ⟨rfl, rfl⟩ := hpass
    refine .inr ?_
    rw [hnext.2 rfl]
    refine hok rfl ?_
    unfold Throttle.countAt
    cases hw : c.sh.failures.get key' with
    | none => exact Nat.pos_of_ne_zero fun hzero => hlimit (UInt32.toNat_inj.mp hzero)
    | some w =>
      rw [hw] at hlimited
      simp only [Option.any_some] at hlimited
      have hlt := (decide_eq_false_iff_not.mp hlimited.symm)
      rw [UInt32.le_iff_toNat_le] at hlt
      exact Nat.lt_of_not_le hlt
  · refine .inl ?_
    have hzero : AuthAttempt.pending key { key := key', passed := !limited } = 0 := by
      simp only [AuthAttempt.pending]
      rw [if_neg]
      rintro ⟨hk, hp, -⟩
      exact hpass ⟨by simpa using hp, hk⟩
    omega

theorem throttled_record (h : Throttled key cfg.authFailureLimitPerMinute start c.loc (c.sh.failures.get key) c.sh.clock)
    {key' : String} {limit : UInt32} {r : Reads} {pruned : List String} {t : Nat}
    (hl : c.loc i = { key := key', passed := true, evaluated := some t })
    (hc : AuthOp.can c.sh (.recordFailure key' limit) (r, pruned) = true) :
    Throttled key cfg.authFailureLimitPerMinute start (Function.update c.loc i { c.loc i with recorded := true })
      ((AuthOp.sh (.recordFailure key' limit) (r, pruned) c.sh).failures.get key) r.restart := by
  simp only [AuthOp.can, AuthOp.canRead, AuthFailures.canPrune, Bool.and_eq_true, decide_eq_true_eq] at hc
  obtain ⟨⟨hclock, hins, hel⟩, -, hstale⟩ := hc
  have hpast : t ≤ c.sh.clock := h.past i t (by rw [hl]; rfl)
  have hpruned : Throttled key cfg.authFailureLimitPerMinute start c.loc ((c.sh.failures.prune pruned).get key) r.inserted := by
    have hlater := h.later hclock
    rw [AuthFailures.get_prune]
    split
    · rename_i hmem
      cases hw : c.sh.failures.get key with
      | none => rwa [hw] at hlater
      | some w =>
        rw [hw] at hlater
        exact hlater.drop (hstale _ (AuthFailures.mem_of_get hw) hmem)
    · exact hlater
  simp only [AuthOp.sh]
  by_cases hk : key' = key
  · subst hk
    rw [AuthFailures.get_insert_self]
    have hwindow : Throttled key' cfg.authFailureLimitPerMinute start c.loc
        (some (((c.sh.failures.prune pruned).get key').getD ⟨r.inserted, 0⟩)) r.inserted := by
      cases hw : (c.sh.failures.prune pruned).get key' with
      | none => exact (hw ▸ hpruned).fresh
      | some w => exact hw ▸ hpruned
    refine (hwindow.restart hins hel).record (by rw [hl]) (t := t) (by rw [hl]; exact ⟨rfl, rfl, rfl⟩) ?_
    have hpos : 0 < authWindow := by decide
    unfold AuthFailureWindow.restarted
    split
    · simp only
      omega
    · rename_i hfresh
      have := mt AuthFailureWindow.stale_iff.mpr hfresh
      omega
  · rw [AuthFailures.get_insert (Ne.symm hk)]
    exact (hpruned.later (by omega)).recordOther (by rw [hl]; exact hk)

theorem throttled_answer (hlimit : cfg.authFailureLimitPerMinute ≠ 0)
    (h : Throttled key cfg.authFailureLimitPerMinute start c.loc (c.sh.failures.get key) c.sh.clock)
    (hinvalid : (calls i).key sha256 = key → ¬ (calls i).Valid sha256 cfg) {o : AuthOp} {a : AuthSig.Ans o}
    (hΦ : Authenticating sha256 cfg (calls i) o (c.loc i)) (hc : o.can c.sh a = true)
    (hok : InTurn key cfg.authFailureLimitPerMinute c (.answer i o a)) :
    Throttled key cfg.authFailureLimitPerMinute start (Function.update c.loc i (o.loc a (c.loc i)))
      ((o.sh a c.sh).failures.get key) (o.sh a c.sh).clock := by
  cases o with
  | isLimited key' limit' =>
    obtain ⟨r, limited⟩ := a
    obtain ⟨-, rfl, hl⟩ := hΦ
    have hloc : AuthOp.loc (.isLimited key' cfg.authFailureLimitPerMinute) (r, limited) (c.loc i) =
        { key := key', passed := !limited } := by rw [hl]; rfl
    rw [hloc]
    exact throttled_check hlimit h hl hc hok
  | authenticate headers =>
    have hl : c.loc i = { key := (calls i).key sha256, passed := true } := hΦ
    have hclock : c.sh.clock ≤ a.instant := of_decide_eq_true hc
    have hloc : AuthOp.loc (.authenticate headers) a (c.loc i) =
        { key := (calls i).key sha256, passed := true, evaluated := some a.instant } := by rw [hl]; rfl
    rw [hloc]
    refine (h.later hclock).update (by rw [hl]) rfl ?_ (fun _ => rfl) (.inl (by rw [hl]; rfl)) ?_
    · intro t ht
      exact Nat.le_of_eq (Option.some.inj ht).symm
    · intro s _ hs
      have hnot : ¬ a.instant < s + authWindow := Nat.not_lt.mpr hs
      simp [AuthAttempt.hit, AuthAttempt.evaluatedIn, hnot]
  | recordFailure key' limit' =>
    obtain ⟨r, pruned⟩ := a
    obtain ⟨-, t, hl⟩ := hΦ
    exact throttled_record h hl hc
  | recordSuccess key' =>
    obtain ⟨rfl, hl, hvalid⟩ := hΦ
    have hk : (calls i).key sha256 ≠ key := fun he => hinvalid he hvalid
    simp only [AuthOp.sh, AuthFailures.get_remove (Ne.symm hk)]
    exact h.recordOther (by rw [hl]; exact hk)

/-- Calls without a valid credential get no more evaluated within a window than its limit. -/
theorem evaluations_within_limit (sha256 : String → String) (cfg : SecurityConfig) (calls : ι → AuthCall) (key : String)
    (hlimit : cfg.authFailureLimitPerMinute ≠ 0)
    (hinvalid : ∀ i, (calls i).key sha256 = key → ¬ (calls i).Valid sha256 cfg) {c c' : ThrottleConf ι}
    (hr : Reach (throttleWorld ι) (InTurn key cfg.authFailureLimitPerMinute) (throttleStart sha256 cfg calls) c)
    {w : AuthFailureWindow} (hw : c.sh.failures.get key = some w)
    (hr' : Reach (throttleWorld ι) (InTurn key cfg.authFailureLimitPerMinute) c c') :
    c'.evaluations key w.started ≤ cfg.authFailureLimitPerMinute.toNat := by
  have hrun : ∀ (start : Option Nat) {c₁ c₂ : ThrottleConf ι},
      Reach (throttleWorld ι) (InTurn key cfg.authFailureLimitPerMinute) (throttleStart sha256 cfg calls) c₁ →
      Throttled key cfg.authFailureLimitPerMinute start c₁.loc (c₁.sh.failures.get key) c₁.sh.clock →
      Reach (throttleWorld ι) (InTurn key cfg.authFailureLimitPerMinute) c₁ c₂ →
      Throttled key cfg.authFailureLimitPerMinute start c₂.loc (c₂.sh.failures.get key) c₂.sh.clock := by
    intro start c₁ c₂ hstart hthrottled hreach
    exact ((throttleStart_typed hlimit calls).reach hstart).pool
      (J := fun loc g => Throttled key cfg.authFailureLimitPerMinute start loc (g.failures.get key) g.clock) hthrottled
      (fun c i o a h hΦ hok hc => throttled_answer hlimit h (hinvalid i) hΦ hc hok) (fun _ _ _ _ _ _ hd => by cases hd)
      (fun _ e => e.elim) hreach
  have hempty : Throttled key cfg.authFailureLimitPerMinute none (throttleStart sha256 cfg calls).loc none 0 := by
    refine ⟨nofun, nofun, ?_, fun _ _ _ hrec => ?_, nofun, nofun⟩
    · simp [throttleStart, AuthAttempt.pending, AuthFailureWindow.countOf]
    · cases hrec
  have hc := hrun none .refl hempty hr
  have hfollow : Throttled key cfg.authFailureLimitPerMinute (some w.started) c.loc (c.sh.failures.get key) c.sh.clock := by
    refine { hc with followed := fun s hs => .inr ?_ }
    cases hs
    obtain ⟨hstarted, hcount, -⟩ := hc.since w hw
    refine ⟨hstarted, fun w₀ hw₀ => ?_, ?_⟩
    · rw [hw] at hw₀
      exact Nat.le_of_eq (congrArg _ (Option.some.inj hw₀))
    · rw [hw]
      exact hcount
  have hc' := hrun (some w.started) hr hfollow hr'
  rcases hc'.followed w.started rfl with hclosed | ⟨-, -, hcount⟩
  · exact hclosed.2
  · exact hc'.hits_le hcount

instance (key : String) (limit : UInt32) (c : ThrottleConf ι) (l : Label AuthSig ι Empty) :
    Decidable (InTurn key limit c l) :=
  match l with
  | .answer _ (.isLimited key' _) a => inferInstanceAs (Decidable (key' = key →
      c.sh.countAt key a.1 < limit.toNat → c.sh.countAt key a.1 + ∑ i, (c.loc i).pending key < limit.toNat))
  | .answer _ (.authenticate _) _ | .answer _ (.recordFailure _ _) _ | .answer _ (.recordSuccess _) _
  | .drop _ | .env _ => .isTrue trivial

end

def oneFailure : SecurityConfig where
  requireAuth := true
  authFailureLimitPerMinute := 1
  trustedProxies := []
  apiKeys := []

/-- Three requests of one source, none with a key. -/
def guesses : Fin 3 → AuthCall := fun _ => ⟨[], "203.0.113.7"⟩

/-- The right answer where the clock shows `t`; nothing is pruned. -/
def AuthOp.answerAt (t : Nat) (g : Throttle) : (o : AuthOp) → Option (AuthSig.Ans o)
  | .isLimited key limit => some (⟨t, t, t⟩, (g.failures.get key).any fun w => decide (limit ≤ (w.restarted ⟨t, t, t⟩).count))
  | .authenticate _ => some ⟨t, 0⟩
  | .recordFailure _ _ => some (⟨t, t, t⟩, [])
  | .recordSuccess _ => some ()

def attemptAt (i : Fin 3) (t : Nat) : Choice AuthSig (Fin 3) Throttle Empty := .answer i fun o g => o.answerAt t g

theorem guesses_key (i : Fin 3) : (guesses i).key id = "203.0.113.7" := by
  show authFailureKey id "203.0.113.7" = "203.0.113.7"
  decide

theorem guesses_invalid (i : Fin 3) : ¬ (guesses i).Valid id oneFailure := by
  rintro ⟨utc, principal, h⟩
  simp [authenticate, oneFailure, guesses, HeaderMap.get, HeaderMap.getAll] at h

/-- After the first failure the second request is turned away. -/
theorem evaluations_within_limit_one : ∃ c : ThrottleConf (Fin 3), c.sh.failures.get "203.0.113.7" = some ⟨2, 1⟩ ∧
    c.result 1 = some (.error "too many failed authentication attempts; retry later") ∧
    c.evaluations "203.0.113.7" 2 ≤ 1 := by
  have hrun : ∃ c : ThrottleConf (Fin 3),
      Reach (throttleWorld (Fin 3)) (InTurn "203.0.113.7" 1) (throttleStart id oneFailure guesses) c ∧
        c.sh.failures.get "203.0.113.7" = some ⟨2, 1⟩ ∧
        c.result 1 = some (.error "too many failed authentication attempts; retry later") :=
    Conf.exists_reach [attemptAt 0 0, attemptAt 0 1, attemptAt 0 2, attemptAt 1 3] (by decide)
  obtain ⟨c, hr, hw, hresult⟩ := hrun
  exact ⟨c, hw, hresult, evaluations_within_limit id oneFailure guesses "203.0.113.7" (by decide)
    (fun i _ => guesses_invalid i) hr hw .refl⟩

/-- All three pass the check before the first failure is recorded. -/
theorem guesses_evaluated : ∃ c : ThrottleConf (Fin 3),
    Reach (throttleWorld (Fin 3)) (fun _ _ => True) (throttleStart id oneFailure guesses) c ∧
      (∀ i, (guesses i).key id = "203.0.113.7" ∧ ¬ (guesses i).Valid id oneFailure) ∧
      c.sh.failures.get "203.0.113.7" = some ⟨2, 1⟩ ∧ oneFailure.authFailureLimitPerMinute = 1 ∧
      c.evaluations "203.0.113.7" 2 = 2 := by
  have hrun : ∃ c : ThrottleConf (Fin 3),
      Reach (throttleWorld (Fin 3)) (fun _ _ => True) (throttleStart id oneFailure guesses) c ∧
        c.sh.failures.get "203.0.113.7" = some ⟨2, 1⟩ ∧ c.evaluations "203.0.113.7" 2 = 2 :=
    Conf.exists_reach [attemptAt 0 0, attemptAt 1 0, attemptAt 2 0, attemptAt 0 1, attemptAt 0 2, attemptAt 1 3,
      attemptAt 2 4] (by decide)
  obtain ⟨c, hr, hw, hcount⟩ := hrun
  exact ⟨c, hr, fun i => ⟨guesses_key i, guesses_invalid i⟩, hw, rfl, hcount⟩

end Llmctl
