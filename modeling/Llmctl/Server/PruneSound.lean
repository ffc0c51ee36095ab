import Llmctl.Server.ThrottleSound

/-!
# Whether a prune of the windows shows

Two runs of the same calls, one that prunes and one that does not. A window that only the
second still has counts for nothing (`Shadow`), so the two answer alike for as long as no
failure starts its window at one instant in the first and at another in the second.
-/

namespace Llmctl

namespace AuthFailures

/-- `prune_stale_auth_windows`, with the instant at which it reads the clock for each window. -/
def pruneStale (failures : AuthFailures) (readings : String → Nat) : AuthFailures :=
  if failures.length < authFailureMaxTracked then failures
  else failures.filter fun e => decide (0 < e.2.count) && !e.2.stale (readings e.1)

def keepAll (failures : AuthFailures) (_ : String → Nat) : AuthFailures := failures

end AuthFailures

/-- A call of the limiter with the instants at which it reads the clock. -/
inductive LimiterCall where
  | isLimited (key : String) (reads : Reads)
  | recordFailure (key : String) (readings : String → Nat) (reads : Reads)
  | recordSuccess (key : String)

namespace LimiterCall

/-- The window that a failure is counted in. -/
def window (w : Option AuthFailureWindow) (reads : Reads) : AuthFailureWindow :=
  (w.getD ⟨reads.inserted, 0⟩).restarted reads

section
variable (prune : AuthFailures → (String → Nat) → AuthFailures) (limit : UInt32)

/-- The answer of `is_limited`, and the windows after the call. -/
def step (failures : AuthFailures) : LimiterCall → Option Bool × AuthFailures
  | isLimited key reads =>
    match failures.get key with
    | none => (some false, failures)
    | some w =>
      let w := w.restarted reads
      (some (decide (limit ≤ w.count)), failures.insert key w)
  | recordFailure key readings reads =>
    let failures := prune failures readings
    (none, failures.insert key (window (failures.get key) reads).failed)
  | recordSuccess key => (none, failures.remove key)

def answers : AuthFailures → List LimiterCall → List Bool
  | _, [] => []
  | failures, c :: calls => (c.step prune limit failures).1.toList ++ answers (c.step prune limit failures).2 calls

def run (failures : AuthFailures) (calls : List LimiterCall) : AuthFailures :=
  calls.foldl (fun failures c => (c.step prune limit failures).2) failures

end

/-- The clock does not run backwards: the call reads it from `clock` on. -/
def Timed (clock : Nat) : LimiterCall → Prop
  | isLimited _ reads => clock ≤ reads.elapsed ∧ reads.elapsed ≤ reads.restart
  | recordFailure _ readings reads =>
    (∀ key, clock ≤ readings key ∧ readings key ≤ reads.inserted) ∧ reads.inserted ≤ reads.elapsed ∧
      reads.elapsed ≤ reads.restart
  | recordSuccess _ => True

def after (clock : Nat) : LimiterCall → Nat
  | isLimited _ reads | recordFailure _ _ reads => reads.restart
  | recordSuccess _ => clock

def TimedRun : Nat → List LimiterCall → Prop
  | _, [] => True
  | clock, c :: calls => c.Timed clock ∧ TimedRun (c.after clock) calls

/-- A failure whose window the prune has dropped is counted in one that starts when the
dropped window would have. -/
def SameStart (pruned kept : AuthFailures) : LimiterCall → Prop
  | recordFailure key readings reads => (pruned.pruneStale readings).get key = none →
      ∀ w, kept.get key = some w → window none reads = window (some w) reads
  | _ => True

def SameStarts (limit : UInt32) : AuthFailures → AuthFailures → List LimiterCall → Prop
  | _, _, [] => True
  | pruned, kept, c :: calls => c.SameStart pruned kept ∧
      SameStarts limit (c.step AuthFailures.pruneStale limit pruned).2 (c.step AuthFailures.keepAll limit kept).2 calls

end LimiterCall

/-! ## The table -/

namespace AuthFailures

variable {failures : AuthFailures} {key : String} {w : AuthFailureWindow}

def Distinct (failures : AuthFailures) : Prop := (failures.map Prod.fst).Nodup

theorem Distinct.filter (h : failures.Distinct) (keep : String × AuthFailureWindow → Bool) :
    Distinct (failures.filter keep) := List.Nodup.sublist (List.filter_sublist.map Prod.fst) h

theorem Distinct.remove (h : failures.Distinct) (key : String) : (failures.remove key).Distinct := h.filter _

theorem Distinct.insert (h : failures.Distinct) (key : String) (w : AuthFailureWindow) :
    (failures.insert key w).Distinct := by
  refine List.nodup_cons.mpr ⟨?_, h.remove key⟩
  simp [AuthFailures.remove]

theorem Distinct.pruneStale (h : failures.Distinct) (readings : String → Nat) : (failures.pruneStale readings).Distinct := by
  unfold AuthFailures.pruneStale
  split
  · exact h
  · exact h.filter _

theorem get_remove_self : (failures.remove key).get key = none := by simp [get, remove]

theorem get_filter (h : failures.Distinct) (keep : String × AuthFailureWindow → Bool) :
    get (failures.filter keep) key = (failures.get key).filter fun w => keep (key, w) := by
  induction failures with
  | nil => rfl
  | cons e failures ih =>
    obtain ⟨key', w⟩ := e
    obtain ⟨hfresh, hrest⟩ := List.nodup_cons.mp h
    by_cases hkey : key' = key
    · subst hkey
      have hhead : get ((key', w) :: failures) key' = some w := by simp [get]
      rw [hhead, Option.filter_some]
      split
      · rename_i hkeep
        rw [List.filter_cons_of_pos hkeep]
        simp [get]
      · rename_i hkeep
        rw [List.filter_cons_of_neg hkeep]
        refine Option.map_eq_none_iff.mpr (List.find?_eq_none.mpr fun e he => ?_)
        have hmem : e.1 ∈ failures.map Prod.fst := List.mem_map_of_mem (List.mem_filter.mp he).1
        simp only [decide_eq_true_eq]
        exact fun hsame => hfresh (hsame ▸ hmem)
    · have htail : ∀ l : AuthFailures, get ((key', w) :: l) key = get l key := fun l => by simp [get, hkey]
      rw [htail, ← ih hrest]
      by_cases hkeep : keep (key', w) = true
      · rw [List.filter_cons_of_pos hkeep, htail]
      · rw [List.filter_cons_of_neg hkeep]

theorem get_pruneStale (h : failures.Distinct) (readings : String → Nat) (key : String) :
    (failures.pruneStale readings).get key = failures.get key ∨
      ∃ w, failures.get key = some w ∧ (w.count = 0 ∨ w.stale (readings key) = true) ∧
        (failures.pruneStale readings).get key = none := by
  unfold pruneStale
  split
  · exact .inl rfl
  · rw [get_filter h]
    cases hw : failures.get key with
    | none => exact .inl rfl
    | some w =>
      rw [Option.filter_some]
      split
      · exact .inl rfl
      · rename_i hdrop
        refine .inr ⟨w, rfl, ?_, rfl⟩
        simp only [Bool.and_eq_true, decide_eq_true_eq, Bool.not_eq_true', not_and, Bool.not_eq_false] at hdrop
        by_cases hzero : w.count = 0
        · exact .inl hzero
        · exact .inr (hdrop (UInt32.pos_iff_ne_zero.mpr hzero))

/-- The prune is one that a recording of a failure may make. -/
theorem canPrune_pruneStale (h : failures.Distinct) {readings : String → Nat} {now : Nat}
    (hread : ∀ key, readings key ≤ now) :
    ∃ pruned, failures.canPrune now pruned = true ∧ failures.pruneStale readings = failures.prune pruned := by
  unfold canPrune pruneStale
  split
  · exact ⟨[], by simp, by simp [prune]⟩
  · rename_i hfull
    refine ⟨(failures.filter fun e => !(decide (0 < e.2.count) && !e.2.stale (readings e.1))).map Prod.fst, ?_, ?_⟩
    · rw [decide_eq_true_eq]
      refine ⟨fun hlt => absurd hlt hfull, fun e he hmem => ?_⟩
      obtain ⟨e', he', hkey⟩ := List.mem_map.mp hmem
      obtain ⟨he', hdrop⟩ := List.mem_filter.mp he'
      obtain rfl := List.inj_on_of_nodup_map h he' he hkey
      by_cases hzero : e'.2.count = 0
      · exact .inl hzero
      · have hstale : e'.2.stale (readings e'.1) = true := by
          simpa [UInt32.pos_iff_ne_zero.mpr hzero] using hdrop
        have := AuthFailureWindow.stale_iff.mp hstale
        have := hread e'.1
        exact .inr (AuthFailureWindow.stale_iff.mpr (by omega))
    · refine List.filter_congr fun e he => ?_
      rw [Bool.eq_iff_iff, decide_eq_true_eq, List.mem_map]
      constructor
      · rintro hkeep ⟨e', he', hkey⟩
        obtain ⟨he', hdrop⟩ := List.mem_filter.mp he'
        obtain rfl := List.inj_on_of_nodup_map h he' he hkey
        rw [hkeep] at hdrop
        cases hdrop
      · intro hout
        by_contra hdrop
        rw [Bool.not_eq_true] at hdrop
        exact hout ⟨e, List.mem_filter.mpr ⟨he, by rw [hdrop]; rfl⟩, rfl⟩

end AuthFailures

/-! ## What the run without the prune still has -/

/-- A window of the run that prunes, and the same key's in the other. -/
inductive Shadow (clock : Nat) : Option AuthFailureWindow → Option AuthFailureWindow → Prop where
  | same (w : Option AuthFailureWindow) : Shadow clock w w
  | dropped (w : AuthFailureWindow) (h : w.count = 0 ∨ w.stale clock = true) : Shadow clock none (some w)

namespace Shadow

variable {clock clock' : Nat} {p k : Option AuthFailureWindow}

theorem later (h : Shadow clock p k) (hle : clock ≤ clock') : Shadow clock' p k := by
  cases h with
  | same => exact .same _
  | dropped w h =>
    refine .dropped w (h.imp_right fun hstale => ?_)
    have := AuthFailureWindow.stale_iff.mp hstale
    exact AuthFailureWindow.stale_iff.mpr (by omega)

theorem drop {w : AuthFailureWindow} (h : Shadow clock (some w) k) (hw : w.count = 0 ∨ w.stale clock = true) :
    Shadow clock none k := by
  cases h
  exact .dropped w hw

end Shadow

/-- The two runs between two calls. -/
structure Shadows (clock : Nat) (pruned kept : AuthFailures) : Prop where
  distinct : pruned.Distinct
  shadow : ∀ key, Shadow clock (pruned.get key) (kept.get key)

namespace Shadows

open AuthFailures LimiterCall

variable {clock clock' : Nat} {pruned kept : AuthFailures} {key : String} {p k : AuthFailureWindow}

theorem later (h : Shadows clock pruned kept) (hle : clock ≤ clock') : Shadows clock' pruned kept :=
  ⟨h.distinct, fun key => (h.shadow key).later hle⟩

theorem insert (h : Shadows clock pruned kept) (w : AuthFailureWindow) :
    Shadows clock (pruned.insert key w) (kept.insert key w) where
  distinct := h.distinct.insert key w
  shadow key' := by
    by_cases hkey : key' = key
    · subst hkey
      rw [get_insert_self, get_insert_self]
      exact .same _
    · rw [get_insert hkey, get_insert hkey]
      exact h.shadow key'

/-- The run that does not prune changes a window that the other has not. -/
theorem insert_kept (h : Shadows clock pruned kept) (hnone : pruned.get key = none) (hw : k.count = 0) :
    Shadows clock pruned (kept.insert key k) where
  distinct := h.distinct
  shadow key' := by
    by_cases hkey : key' = key
    · subst hkey
      rw [get_insert_self, hnone]
      exact .dropped k (.inl hw)
    · rw [get_insert hkey]
      exact h.shadow key'

theorem remove (h : Shadows clock pruned kept) (key : String) :
    Shadows clock (pruned.remove key) (kept.remove key) where
  distinct := h.distinct.remove key
  shadow key' := by
    by_cases hkey : key' = key
    · subst hkey
      rw [get_remove_self, get_remove_self]
      exact .same _
    · rw [get_remove hkey, get_remove hkey]
      exact h.shadow key'

theorem pruneStale (h : Shadows clock pruned kept) {readings : String → Nat} (hread : ∀ key, readings key ≤ clock) :
    Shadows clock (pruned.pruneStale readings) kept where
  distinct := h.distinct.pruneStale readings
  shadow key := by
    have hshadow := h.shadow key
    rcases get_pruneStale h.distinct readings key with hsame | ⟨w, hw, hcount, hnone⟩
    · rw [hsame]
      exact hshadow
    · rw [hw] at hshadow
      rw [hnone]
      refine hshadow.drop (hcount.imp_right fun hstale => ?_)
      have := AuthFailureWindow.stale_iff.mp hstale
      have := hread key
      exact AuthFailureWindow.stale_iff.mpr (by omega)

/-- The window that a failure is counted in is the same one in both runs. -/
theorem window_eq (h : Shadows clock pruned kept) {reads : Reads}
    (hstart : pruned.get key = none → ∀ w, kept.get key = some w → window none reads = window (some w) reads) :
    window (pruned.get key) reads = window (kept.get key) reads := by
  have hshadow := h.shadow key
  generalize hp : pruned.get key = p at hshadow hstart
  generalize hk : kept.get key = k at hshadow hstart
  cases hshadow with
  | same => rfl
  | dropped w hw => exact hstart rfl w rfl

theorem restarted_count {w : AuthFailureWindow} {reads : Reads} (hw : w.count = 0 ∨ w.stale clock = true)
    (hle : clock ≤ reads.elapsed) : (w.restarted reads).count = 0 := by
  unfold AuthFailureWindow.restarted
  split
  · rfl
  · rename_i hfresh
    refine hw.resolve_right fun hstale => hfresh ?_
    have := AuthFailureWindow.stale_iff.mp hstale
    exact AuthFailureWindow.stale_iff.mpr (by omega)

theorem step (h : Shadows clock pruned kept) {limit : UInt32} (hlimit : limit ≠ 0) (c : LimiterCall) (htimed : c.Timed clock)
    (hstart : c.SameStart pruned kept) :
    (c.step AuthFailures.pruneStale limit pruned).1 = (c.step keepAll limit kept).1 ∧
      Shadows (c.after clock) (c.step AuthFailures.pruneStale limit pruned).2 (c.step keepAll limit kept).2 := by
  cases c with
  | isLimited key reads =>
    obtain ⟨hclock, hrestart⟩ := htimed
    have hshadow := h.shadow key
    have hnext := h.later (hclock.trans hrestart)
    simp only [LimiterCall.step, after]
    generalize hp : pruned.get key = p at hshadow
    generalize hk : kept.get key = k at hshadow
    cases hshadow with
    | same =>
      cases p with
      | none => exact ⟨rfl, hnext⟩
      | some w => exact ⟨rfl, hnext.insert _⟩
    | dropped w hw =>
      have hcount := restarted_count hw hclock
      refine ⟨?_, hnext.insert_kept hp hcount⟩
      show some false = some (decide (limit ≤ (w.restarted reads).count))
      rw [hcount]
      simpa using hlimit
  | recordFailure key readings reads =>
    obtain ⟨hread, helapsed, hrestart⟩ := htimed
    have hclock : clock ≤ reads.restart := by
      have := hread key
      omega
    have hpruned := (h.later hclock).pruneStale fun key => (hread key).2.trans (helapsed.trans hrestart)
    have hwindow := hpruned.window_eq hstart
    refine ⟨rfl, ?_⟩
    simp only [LimiterCall.step, after, keepAll, hwindow]
    exact hpruned.insert _
  | recordSuccess key => exact ⟨rfl, h.remove key⟩

theorem answers_eq {limit : UInt32} (hlimit : limit ≠ 0) (calls : List LimiterCall) (h : Shadows clock pruned kept)
    (htimed : TimedRun clock calls) (hstarts : SameStarts limit pruned kept calls) :
    answers AuthFailures.pruneStale limit pruned calls = answers keepAll limit kept calls := by
  induction calls generalizing clock pruned kept with
  | nil => rfl
  | cons c calls ih =>
    obtain ⟨hanswer, hnext⟩ := h.step hlimit c htimed.1 hstarts.1
    rw [answers, answers, hanswer, ih hnext htimed.2 hstarts.2]

end Shadows

/-- A failure and the checks within its minute and after it. -/
def failureAndChecks : List LimiterCall :=
  [.recordFailure "a" (fun _ => 0) ⟨0, 0, 0⟩, .isLimited "a" ⟨1, 1, 1⟩, .isLimited "a" ⟨authWindow, authWindow, authWindow⟩]

namespace LimiterCall

open AuthFailures

def secs (n : Nat) : Nat := n * 1000000000

def readsAt (t : Nat) : Reads := ⟨t, t, t⟩

/-- A failure for a key of `n` letters at `t`. -/
def fill (t n : Nat) : LimiterCall :=
  .recordFailure (String.ofList (List.replicate n 'b')) (fun _ => t) (readsAt t)

def fills (t n : Nat) : List LimiterCall := (List.range n).map (fill t)

/-- A check restarts the window of key `a`, the calls of others follow, and a failure finds the
window as they left it. -/
def idleAmong (others : List LimiterCall) : List LimiterCall :=
  [.recordFailure "a" (fun _ => 0) (readsAt 0), .isLimited "a" (readsAt (secs 60))] ++ others ++
    [.recordFailure "a" (fun _ => secs 110) (readsAt (secs 110))]

end LimiterCall

namespace LimiterCall

open AuthFailures

variable {prune : AuthFailures → (String → Nat) → AuthFailures} {limit : UInt32} {failures : AuthFailures}

theorem run_concat (calls : List LimiterCall) (c : LimiterCall) :
    run prune limit failures (calls ++ [c]) = (c.step prune limit (run prune limit failures calls)).2 := List.foldl_append ..

theorem answers_concat (calls : List LimiterCall) (c : LimiterCall) :
    answers prune limit failures (calls ++ [c]) =
      answers prune limit failures calls ++ (c.step prune limit (run prune limit failures calls)).1.toList := by
  induction calls generalizing failures with
  | nil => simp [answers, run]
  | cons c' calls ih =>
    rw [List.cons_append, answers, answers, ih, List.append_assoc]
    rfl

theorem fills_succ (t n : Nat) : fills t (n + 1) = fills t n ++ [fill t n] := by simp [fills, List.range_succ]

theorem name_ne (n : Nat) : "a" ≠ String.ofList (List.replicate n 'b') := by
  intro h
  have hlist : ['a'] = List.replicate n 'b' := by simpa using congrArg String.toList h
  have hmem : 'a' ∈ List.replicate n 'b' := hlist ▸ List.mem_singleton_self _
  exact absurd (List.eq_of_mem_replicate hmem) (by decide)

theorem name_inj {m n : Nat} (h : String.ofList (List.replicate m 'b') = String.ofList (List.replicate n 'b')) : m = n := by
  have hlist := congrArg String.toList h
  simpa using congrArg List.length hlist

theorem run_fills_kept (t n : Nat) : (run keepAll limit failures (fills t n)).get "a" = failures.get "a" := by
  induction n with
  | zero => rfl
  | succ n ih =>
    rw [fills_succ, run_concat]
    exact (get_insert (name_ne n)).trans ih

/-- The windows after fewer failures than the table holds without a prune. -/
structure Filled (w : AuthFailureWindow) (n : Nat) (failures : AuthFailures) : Prop where
  distinct : failures.Distinct
  length : failures.length = n + 1
  window : failures.get "a" = some w
  keys : ∀ e ∈ failures, e.1 = "a" ∨ ∃ m < n, e.1 = String.ofList (List.replicate m 'b')

theorem Filled.fill {w : AuthFailureWindow} {t n : Nat} (h : Filled w n failures) (hn : n + 1 < authFailureMaxTracked) :
    Filled w (n + 1) ((fill t n).step AuthFailures.pruneStale limit failures).2 := by
  have hkeep : failures.pruneStale (fun _ => t) = failures := if_pos (by rw [h.length]; exact hn)
  have hfresh : failures.remove (String.ofList (List.replicate n 'b')) = failures := by
    refine List.filter_eq_self.mpr fun e he => ?_
    rw [decide_eq_true_eq]
    rcases h.keys e he with hkey | ⟨m, hm, hkey⟩
    · rw [hkey]
      exact name_ne n
    · rw [hkey]
      exact fun hsame => hm.ne (name_inj hsame)
  show Filled w (n + 1) ((failures.pruneStale _).insert _ _)
  rw [hkeep]
  refine ⟨h.distinct.insert _ _, ?_, (get_insert (name_ne n)).trans h.window, fun e he => ?_⟩
  · rw [AuthFailures.insert, hfresh, List.length_cons, h.length]
  · rw [AuthFailures.insert, hfresh] at he
    rcases List.mem_cons.mp he with rfl | he
    · exact .inr ⟨n, Nat.lt_succ_self n, rfl⟩
    · exact (h.keys e he).imp_right (Exists.imp fun _ hm => hm.imp_left Nat.lt_succ_of_lt)

theorem filled_fills (t : Nat) (w : AuthFailureWindow) {n : Nat} (hn : n < authFailureMaxTracked) :
    Filled w n (run AuthFailures.pruneStale limit [("a", w)] (fills t n)) := by
  induction n with
  | zero =>
    refine ⟨List.nodup_singleton _, rfl, by simp [fills, run, AuthFailures.get], fun e he => .inl ?_⟩
    rw [List.mem_singleton.mp he]
  | succ n ih =>
    rw [fills_succ, run_concat]
    exact (ih (Nat.lt_of_succ_lt hn)).fill hn

/-- The prune drops a window without a count while its minute runs. -/
theorem get_fills_pruned (t started : Nat) :
    (run AuthFailures.pruneStale limit [("a", ⟨started, 0⟩)] (fills t authFailureMaxTracked)).get "a" = none := by
  obtain ⟨n, hn⟩ : ∃ n, authFailureMaxTracked = n + 1 := ⟨8191, rfl⟩
  have hfilled : Filled ⟨started, 0⟩ n (run AuthFailures.pruneStale limit [("a", ⟨started, 0⟩)] (fills t n)) :=
    filled_fills t _ (by omega)
  rw [hn, fills_succ, run_concat]
  refine (get_insert (name_ne n)).trans ?_
  rw [AuthFailures.pruneStale, if_neg (by rw [hfilled.length, hn]; exact Nat.lt_irrefl _), get_filter hfilled.distinct,
    hfilled.window, Option.filter_some]
  rfl

theorem timed_fills (t n : Nat) {calls : List LimiterCall} (h : TimedRun t calls) : TimedRun t (fills t n ++ calls) := by
  induction n generalizing calls with
  | zero => exact h
  | succ n ih =>
    rw [fills_succ, List.append_assoc]
    exact ih ⟨⟨fun _ => ⟨Nat.le_refl t, Nat.le_refl t⟩, Nat.le_refl t, Nat.le_refl t⟩, h⟩

theorem run_append (calls calls' : List LimiterCall) :
    run prune limit failures (calls ++ calls') = run prune limit (run prune limit failures calls) calls' :=
  List.foldl_append ..

section
variable {others : List LimiterCall}

theorem run_idleAmong (hprune : ∀ readings, prune [] readings = []) : run prune 1 [] (idleAmong others) =
    ((LimiterCall.recordFailure "a" (fun _ => secs 110) (readsAt (secs 110))).step prune 1
      (run prune 1 [("a", ⟨secs 60, 0⟩)] others)).2 := by
  have hfirst : run prune 1 [] [.recordFailure "a" (fun _ => 0) (readsAt 0), .isLimited "a" (readsAt (secs 60))] =
      [("a", ⟨secs 60, 0⟩)] := by
    simp only [run, List.foldl_cons, List.foldl_nil, step, hprune]
    decide
  rw [idleAmong, run_concat, run_append, hfirst]

theorem get_idleAmong_kept (h : (run keepAll 1 [("a", ⟨secs 60, 0⟩)] others).get "a" = some ⟨secs 60, 0⟩) :
    (run keepAll 1 [] (idleAmong others)).get "a" = some ⟨secs 60, 1⟩ := by
  rw [run_idleAmong fun _ => rfl]
  refine get_insert_self.trans ?_
  rw [keepAll, h]
  decide

theorem get_idleAmong_pruned (hdistinct : (run AuthFailures.pruneStale 1 [("a", ⟨secs 60, 0⟩)] others).Distinct)
    (h : (run AuthFailures.pruneStale 1 [("a", ⟨secs 60, 0⟩)] others).get "a" = none) :
    (run AuthFailures.pruneStale 1 [] (idleAmong others)).get "a" = some ⟨secs 110, 1⟩ := by
  rw [run_idleAmong fun _ => rfl]
  refine get_insert_self.trans ?_
  have hnone : ((run AuthFailures.pruneStale 1 [("a", ⟨secs 60, 0⟩)] others).pruneStale fun _ => secs 110).get "a" = none := by
    rcases get_pruneStale hdistinct (fun _ => secs 110) "a" with hsame | ⟨w, -, -, hnone⟩
    · rw [hsame, h]
    · exact hnone
  rw [hnone]
  decide

theorem distinct_step (c : LimiterCall) (h : failures.Distinct) :
    (c.step AuthFailures.pruneStale limit failures).2.Distinct := by
  cases c with
  | isLimited key reads =>
    rw [step]
    cases failures.get key with
    | none => exact h
    | some w => exact h.insert _ _
  | recordFailure key readings reads => exact (h.pruneStale readings).insert _ _
  | recordSuccess key => exact h.remove key

theorem distinct_run (calls : List LimiterCall) (h : failures.Distinct) :
    (run AuthFailures.pruneStale limit failures calls).Distinct := by
  induction calls generalizing failures with
  | nil => exact h
  | cons c calls ih => exact ih (distinct_step c h)

theorem timed_idleAmong {others : List LimiterCall}
    (h : ∀ calls, TimedRun (secs 60) calls → TimedRun (secs 60) (others ++ calls)) :
    TimedRun 0 (idleAmong others ++ [.isLimited "a" (readsAt (secs 125))]) := by
  rw [idleAmong, List.append_assoc, List.append_assoc]
  refine ⟨⟨fun _ => ⟨Nat.le_refl _, Nat.le_refl _⟩, Nat.le_refl _, Nat.le_refl _⟩, ⟨Nat.zero_le _, Nat.le_refl _⟩, ?_⟩
  exact h _ ⟨⟨fun _ => ⟨(by decide : secs 60 ≤ secs 110), Nat.le_refl _⟩, Nat.le_refl _, Nat.le_refl _⟩, ⟨by decide, Nat.le_refl _⟩, trivial⟩

end

end LimiterCall

end Llmctl
