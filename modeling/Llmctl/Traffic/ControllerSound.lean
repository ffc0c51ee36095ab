import Llmctl.Async.Owned
import Llmctl.Traffic.Controller

/-!
# Permits within their limits

What the semaphores have given out is owned by threads and live permits (`Held`).
A scope's permits are all of one semaphore, however often its map was pruned.
-/

namespace Llmctl.Admission

open Async

/-! ## The typestate of a call -/

/-- What a call for `scopes` owns at each of its steps. -/
def Owning {ι : Type} (scopes : List (String × Nat)) (o : AdmissionOp ι) (l : Owns) : Prop :=
  match o with
  | .tryGlobal | .take _ => l = {}
  | .entry scope limit => (scope, limit) ∈ scopes ∧ l.returned = false
  | .tryAcquire sem | .dropArc sem => sem ∈ l.arcs
  | .addPermit sem => sem ∈ l.permits
  | .addGlobal => l.global = true
  | .handOut sems => l = { global := true, permits := sems, got := l.got } ∧ sems = l.got.map (·.1) ∧ l.got.map (·.2) = scopes
  | _ => True

/-- A call that has ended owns nothing. -/
def Finished (scopes : List (String × Nat)) (a : Ended) (l : Owns) : Prop :=
  l = { got := l.got, returned := decide (a = .admitted) } ∧ (a = .admitted → l.got.map (·.2) = scopes)

def AdmissionCall.scopes {ι : Type} : AdmissionCall ι → List (String × Nat)
  | .tryAcquireForAll scopes => scopes
  | .dropPermit _ => []

section
variable {ι : Type} [DecidableEq ι] {i : ι} {all : List (String × Nat)}

theorem dropScoped_always : ∀ (sems : List Nat) {l : Owns}, l.arcs = [] → l.permits = sems →
    Always (admissionWorld ι) i (Owning all) (fun _ l' => l' = { l with permits := [] }) (dropScoped sems) l
  | [], l, _, hp => by
    show l = { l with permits := [] }
    rw [← hp]
  | sem :: sems, l, ha, hp => by
    refine Always.op (by simp [Owning, hp]) fun _ _ _ => Always.op (by simp [Owning, admissionWorld, AdmissionOp.loc]) ?_
    intro _ _ _
    refine (dropScoped_always sems ?_ ?_).mono (fun _ _ h => h) fun _ l' h => ?_
    · simp [admissionWorld, AdmissionOp.loc, ha]
    · simp [admissionWorld, AdmissionOp.loc, hp]
    · rw [h]
      simp [admissionWorld, AdmissionOp.loc, ha]

/-- What is left of a list of scopes to acquire. -/
def Acquired (all : List (String × Nat)) (r : Option (List Nat)) (l : Owns) : Prop :=
  match r with
  | some sems => l = { global := true, permits := sems, got := l.got } ∧ sems = l.got.map (·.1) ∧ l.got.map (·.2) = all
  | none => l = { global := true, got := l.got }

theorem scopedSemaphore_always {scope : String} {limit : Nat} (hmem : (scope, limit) ∈ all) {l : Owns}
    (hret : l.returned = false) :
    Always (admissionWorld ι) i (Owning all)
      (fun r l' => match r with
        | some sem => l' = { l with arcs := sem :: l.arcs, got := l.got ++ [(sem, scope, limit)] }
        | none => l' = l)
      (scopedSemaphore scope limit) l := by
  refine Always.op trivial fun sound _ _ => ?_
  cases sound with
  | false => exact rfl
  | true =>
    refine Always.op trivial fun _ _ _ => Always.op ⟨hmem, hret⟩ fun sem _ _ => Always.op trivial fun _ _ _ => ?_
    cases sem with
    | none => exact rfl
    | some sem => exact rfl

theorem acquireScopes_always : ∀ (scopes : List (String × Nat)) {acquired : List Nat} {l : Owns},
    l = { global := true, permits := acquired, got := l.got } → acquired = l.got.map (·.1) →
    l.got.map (·.2) ++ scopes = all →
    Always (admissionWorld ι) i (Owning all) (Acquired all) (acquireScopes acquired scopes) l
  | [], acquired, l, hl, hacq, hgot => ⟨hl, hacq, by rw [← hgot, List.append_nil]⟩
  | (scope, limit) :: scopes, acquired, l, hl, hacq, hgot => by
    have hmem : (scope, limit) ∈ all := by rw [← hgot]; simp
    apply (scopedSemaphore_always hmem (by rw [hl])).seq
    intro r l' hr
    cases r with
    | none =>
      subst hr
      apply (dropScoped_always acquired (by rw [hl]) (by rw [hl])).seq
      rintro _ l' rfl
      show _ = _
      rw [hl]
    | some sem =>
      have harcs : l'.arcs = [sem] := by rw [hr, hl]
      refine Always.op (by simp [Owning, harcs]) fun got _ _ => ?_
      cases got with
      | true =>
        refine acquireScopes_always scopes ?_ ?_ ?_
        · rw [hr, hl]
          simp [admissionWorld, AdmissionOp.loc]
        · rw [hr, hacq]
          simp [admissionWorld, AdmissionOp.loc]
        · rw [hr, ← hgot]
          simp [admissionWorld, AdmissionOp.loc]
      | false =>
        refine Always.op (by simp [Owning, admissionWorld, AdmissionOp.loc, harcs]) fun _ _ _ => ?_
        refine (dropScoped_always acquired ?_ ?_).seq ?_
        · simp [admissionWorld, AdmissionOp.loc, harcs]
        · rw [hr, hl]
          rfl
        · rintro _ l' rfl
          show _ = _
          rw [hr, hl]
          simp [admissionWorld, AdmissionOp.loc]

theorem prog_always (call : AdmissionCall ι) :
    Always (admissionWorld ι) i (Owning call.scopes) (Finished call.scopes) call.prog {} := by
  cases call with
  | tryAcquireForAll scopes =>
    refine Always.op rfl fun got _ _ => ?_
    cases got with
    | false => exact ⟨rfl, nofun⟩
    | true =>
      have hacquire : Always (admissionWorld ι) i (Owning scopes) (Acquired scopes) (acquireScopes [] scopes)
          { global := true } := acquireScopes_always scopes rfl rfl rfl
      refine hacquire.seq fun r l hr => ?_
      cases r with
      | none =>
        have hl : l = { global := true, got := l.got } := hr
        refine Always.op (by rw [hl]; rfl) fun _ _ _ => ⟨?_, nofun⟩
        rw [hl]
        rfl
      | some sems => exact Always.op hr fun _ _ _ => ⟨rfl, fun _ => hr.2.2⟩
  | dropPermit permit =>
    refine Always.op rfl fun sems _ _ => Always.op rfl fun _ _ _ => ?_
    apply (dropScoped_always sems rfl rfl).seq
    rintro _ l rfl
    exact ⟨rfl, nofun⟩

theorem admissionStart_typed (maxInFlight : Nat) (calls : ι → AdmissionCall ι) :
    Typed (admissionWorld ι) (fun i => Owning (calls i).scopes) (fun i => Finished (calls i).scopes)
      (admissionStart maxInFlight calls) := by
  intro i p hp
  cases hp
  exact prog_always (calls i)

end

/-! ## What is held -/

namespace Owns

def refs (s : Nat) (l : Owns) : Nat := l.arcs.count s + l.permits.count s

def permitsOn (s : Nat) (l : Owns) : Nat := l.permits.count s

def globals (l : Owns) : Nat := if l.global then 1 else 0

/-- A live permit owns what the thread that drops it will own. -/
def live : Option (List Nat) → Owns
  | some sems => { global := true, permits := sems }
  | none => {}

end Owns

section
variable {ι : Type} [DecidableEq ι] [Fintype ι] {loc : ι → Owns} {g g' : Controller ι} {i : ι} {l : Owns}
  {maxInFlight : Nat}

def total (φ : Owns → Nat) (loc : ι → Owns) (live : ι → Option (List Nat)) : Nat :=
  ∑ i, φ (loc i) + ∑ i, φ (.live (live i))

theorem total_update (φ : Owns → Nat) (loc : ι → Owns) (live : ι → Option (List Nat)) (i j : ι) (l : Owns)
    (x : Option (List Nat)) :
    total φ (Function.update loc i l) (Function.update live j x) + φ (loc i) + φ (.live (live j)) =
      total φ loc live + φ l + φ (.live x) := by
  have hloc := sum_update_add φ loc i l
  have hlive := sum_update_add (fun x => φ (.live x)) live j x
  unfold total
  omega

theorem total_update_loc (φ : Owns → Nat) (loc : ι → Owns) (live : ι → Option (List Nat)) (i : ι) (l : Owns) :
    total φ (Function.update loc i l) live + φ (loc i) = total φ loc live + φ l := by
  have hloc := sum_update_add φ loc i l
  unfold total
  omega

structure Held (maxInFlight : Nat) (loc : ι → Owns) (g : Controller ι) : Prop where
  sound : g.scopes.Sound
  refs : ∀ s, total (Owns.refs s) loc g.live = g.scopes.refs s
  permits : ∀ s, g.available s + total (Owns.permitsOn s) loc g.live = g.limits s
  global : g.global + total Owns.globals loc g.live = max maxInFlight 1

omit [DecidableEq ι] in
theorem Held.permits_le_refs (h : Held maxInFlight loc g) (s : Nat) :
    total (Owns.permitsOn s) loc g.live ≤ g.scopes.refs s := by
  rw [← h.refs s]
  unfold total Owns.permitsOn Owns.refs
  gcongr <;> omega

/-- A step of `i` that leaves the live permits alone. -/
theorem Held.update (h : Held maxInFlight loc g) (hlive : g'.live = g.live) (hsound : g'.scopes.Sound)
    (hrefs : ∀ s, g'.scopes.refs s + (loc i).refs s = g.scopes.refs s + l.refs s)
    (hpermits : ∀ s, g'.available s + l.permitsOn s + g.limits s = g.available s + (loc i).permitsOn s + g'.limits s)
    (hglobal : g'.global + l.globals = g.global + (loc i).globals) :
    Held maxInFlight (Function.update loc i l) g' where
  sound := hsound
  refs s := by
    have htotal := total_update_loc (Owns.refs s) loc g.live i l
    have := h.refs s
    have := hrefs s
    rw [hlive]
    omega
  permits s := by
    have htotal := total_update_loc (Owns.permitsOn s) loc g.live i l
    have := h.permits s
    have := hpermits s
    rw [hlive]
    omega
  global := by
    have htotal := total_update_loc Owns.globals loc g.live i l
    have := h.global
    rw [hlive]
    omega

/-- A permit changes hands. -/
theorem Held.move (h : Held maxInFlight loc g) {j : ι} {x : Option (List Nat)}
    (hmove : ∀ φ : Owns → Nat, (∀ l l' : Owns, l.global = l'.global → l.arcs = l'.arcs → l.permits = l'.permits → φ l = φ l') →
      φ (loc i) + φ (.live (g.live j)) = φ l + φ (.live x)) :
    Held maxInFlight (Function.update loc i l) { g with live := Function.update g.live j x } where
  sound := h.sound
  refs s := by
    have htotal := total_update (Owns.refs s) loc g.live i j l x
    have := h.refs s
    have := hmove (Owns.refs s) (by rintro ⟨⟩ ⟨⟩ rfl rfl rfl; rfl)
    simp only
    omega
  permits s := by
    have htotal := total_update (Owns.permitsOn s) loc g.live i j l x
    have := h.permits s
    have := hmove (Owns.permitsOn s) (by rintro ⟨⟩ ⟨⟩ rfl rfl rfl; rfl)
    simp only
    omega
  global := by
    have htotal := total_update Owns.globals loc g.live i j l x
    have := h.global
    have := hmove Owns.globals (by rintro ⟨⟩ ⟨⟩ rfl rfl rfl; rfl)
    simp only
    omega

theorem held_entry (h : Held maxInFlight loc g) (scope : String) (limit : Nat) {sem : Nat}
    (hsem : sem = (g.scopes.entry scope).1) :
    Held maxInFlight
      (Function.update loc i { loc i with arcs := sem :: (loc i).arcs, got := (loc i).got ++ [(sem, scope, limit)] })
      (AdmissionOp.entrySh scope limit g) := by
  have hrefs : ∀ s, (g.scopes.entry scope).2.refs s + (loc i).refs s =
      g.scopes.refs s + Owns.refs s { loc i with arcs := sem :: (loc i).arcs, got := (loc i).got ++ [(sem, scope, limit)] } := by
    intro s
    rw [h.sound.entry_refs, ← hsem]
    simp only [Owns.refs, List.count_cons]
    by_cases hs : s = sem
    · simp [hs]
      omega
    · simp [hs, Ne.symm hs]
  unfold AdmissionOp.entrySh
  simp only
  cases hf : g.scopes.find scope with
  | some o =>
    exact h.update rfl (h.sound.entry scope) hrefs (fun _ => rfl) rfl
  | none =>
    refine h.update rfl (h.sound.entry scope) hrefs (fun s => ?_) rfl
    have hfresh : (g.scopes.entry scope).1 = g.scopes.names.length := by
      unfold Registry.entry
      rw [hf]
    simp only [Function.update_apply]
    by_cases hs : s = (g.scopes.entry scope).1
    · have hzero := h.sound.refs_fresh (o := s) (by rw [hs, hfresh])
      have hle := h.permits_le_refs s
      have := h.permits s
      simp only [hs, if_true, Owns.permitsOn] at *
      omega
    · simp [hs, Owns.permitsOn]

theorem held_tryAcquire (h : Held maxInFlight loc g) {sem : Nat} (hmem : sem ∈ (loc i).arcs)
    (hpos : 0 < g.available sem) :
    Held maxInFlight (Function.update loc i (@AdmissionOp.loc ι (.tryAcquire sem) true (loc i)))
      (AdmissionOp.sh i (.tryAcquire sem) true g) := by
  have hcount := List.count_pos_iff.mpr hmem
  refine h.update rfl h.sound (fun s => ?_) (fun s => ?_) rfl
  · simp only [AdmissionOp.loc, AdmissionOp.sh, Owns.refs, List.count_erase, List.count_append, List.count_singleton]
    by_cases hs : sem = s
    · subst hs
      simp
      omega
    · simp [hs]
  · simp only [AdmissionOp.loc, AdmissionOp.sh, Owns.permitsOn, List.count_append, List.count_singleton, Function.update_apply]
    by_cases hs : s = sem
    · subst hs
      simp
      omega
    · simp [hs, Ne.symm hs]

theorem held_addPermit (h : Held maxInFlight loc g) {sem : Nat} (hmem : sem ∈ (loc i).permits) :
    Held maxInFlight (Function.update loc i (@AdmissionOp.loc ι (.addPermit sem) () (loc i)))
      (AdmissionOp.sh i (.addPermit sem) () g) := by
  have hcount := List.count_pos_iff.mpr hmem
  refine h.update rfl h.sound (fun s => ?_) (fun s => ?_) rfl
  · simp only [AdmissionOp.loc, AdmissionOp.sh, Owns.refs, List.count_erase, List.count_cons]
    by_cases hs : sem = s
    · subst hs
      simp
      omega
    · simp [hs]
  · simp only [AdmissionOp.loc, AdmissionOp.sh, Owns.permitsOn, List.count_erase, Function.update_apply]
    by_cases hs : s = sem
    · subst hs
      simp
      omega
    · simp [hs, Ne.symm hs]

theorem held_dropArc (h : Held maxInFlight loc g) {sem : Nat} (hmem : sem ∈ (loc i).arcs) :
    Held maxInFlight (Function.update loc i (@AdmissionOp.loc ι (.dropArc sem) () (loc i)))
      (AdmissionOp.sh i (.dropArc sem) () g) := by
  have hcount := List.count_pos_iff.mpr hmem
  have hle : (loc i).refs sem ≤ g.scopes.refs sem := by
    rw [← h.refs sem]
    exact le_trans (le_sum (Owns.refs sem) loc i) (Nat.le_add_right _ _)
  refine h.update rfl h.sound.release (fun s => ?_) (fun _ => rfl) rfl
  simp only [AdmissionOp.loc, AdmissionOp.sh, Registry.release_refs, Owns.refs, List.count_erase]
  by_cases hs : sem = s
  · subst hs
    simp only [Owns.refs] at hle
    simp
    omega
  · simp [hs, Ne.symm hs]

/-- A live permit is one that its call has returned. -/
def Returned (loc : ι → Owns) (g : Controller ι) : Prop := ∀ i, g.live i ≠ none → (loc i).returned = true

omit [Fintype ι] in
theorem returned_answer (h : Returned loc g) {o : AdmissionOp ι} {a : (AdmissionSig ι).Ans o} :
    Returned (Function.update loc i (o.loc a (loc i))) (o.sh i a g) := by
  have hkeep : ∀ {l g'}, (l : Owns).returned = (loc i).returned → (g' : Controller ι).live = g.live →
      Returned (Function.update loc i l) g' := by
    intro l g' hl hg j hj
    rw [hg] at hj
    by_cases hji : j = i
    · subst hji
      rw [Function.update_self, hl]
      exact h j hj
    · rw [Function.update_of_ne hji]
      exact h j hj
  cases o with
  | tryGlobal => cases a <;> exact hkeep rfl rfl
  | lockScopes => cases a <;> exact hkeep rfl rfl
  | entry scope limit =>
    cases a with
    | none => exact hkeep rfl rfl
    | some sem =>
      refine hkeep rfl ?_
      simp only [AdmissionOp.sh, AdmissionOp.entrySh]
      split <;> rfl
  | tryAcquire sem => cases a <;> exact hkeep rfl rfl
  | handOut sems =>
    intro j hj
    by_cases hji : j = i
    · subst hji
      rw [Function.update_self]
      rfl
    · simp only [AdmissionOp.sh, Function.update_of_ne hji] at hj ⊢
      exact h j hj
  | take permit =>
    intro j hj
    have hj' : g.live j ≠ none := by
      intro hnone
      simp only [AdmissionOp.sh, Function.update_apply, hnone, ite_self] at hj
      exact hj rfl
    by_cases hji : j = i
    · subst hji
      rw [Function.update_self]
      exact h j hj'
    · rw [Function.update_of_ne hji]
      exact h j hj'
  | _ => exact hkeep rfl rfl

theorem held_answer (h : Held maxInFlight loc g) (hret : Returned loc g) {scopes : List (String × Nat)} {o : AdmissionOp ι}
    {a : (AdmissionSig ι).Ans o} (hΦ : Owning scopes o (loc i)) (hc : o.can g a = true) :
    Held maxInFlight (Function.update loc i (o.loc a (loc i))) (o.sh i a g) := by
  cases o with
  | tryGlobal =>
    have ha : a = decide (0 < g.global) := by simpa [AdmissionOp.can] using hc
    have hl : loc i = {} := hΦ
    cases a with
    | false => exact h.update rfl h.sound (fun _ => rfl) (fun _ => rfl) (by simp [AdmissionOp.loc, AdmissionOp.sh, hl])
    | true =>
      have hpos : 0 < g.global := by simpa using ha.symm
      refine h.update rfl h.sound (fun _ => rfl) (fun _ => rfl) ?_
      simp only [AdmissionOp.loc, AdmissionOp.sh, hl, Owns.globals]
      simp
      omega
  | lockScopes => cases a <;> exact h.update rfl h.sound (fun _ => rfl) (fun _ => rfl) rfl
  | retain => exact h.update rfl (h.sound.retain hc) (fun _ => rfl) (fun _ => rfl) rfl
  | entry scope limit =>
    cases a with
    | none => exact h.update rfl h.sound (fun _ => rfl) (fun _ => rfl) rfl
    | some sem =>
      refine held_entry h scope limit ?_
      simp only [AdmissionOp.can] at hc
      split at hc
      · simp at hc
      · simpa using hc
  | unlockScopes => exact h.update rfl h.sound (fun _ => rfl) (fun _ => rfl) rfl
  | tryAcquire sem =>
    cases a with
    | false => exact h.update rfl h.sound (fun _ => rfl) (fun _ => rfl) rfl
    | true => exact held_tryAcquire h hΦ (by simpa [AdmissionOp.can] using hc)
  | addPermit sem => exact held_addPermit h hΦ
  | dropArc sem => exact held_dropArc h hΦ
  | addGlobal =>
    have hl : (loc i).global = true := hΦ
    refine h.update rfl h.sound (fun _ => rfl) (fun _ => rfl) ?_
    simp only [AdmissionOp.loc, AdmissionOp.sh, Owns.globals, hl]
    simp
  | handOut sems =>
    have hl : loc i = { global := true, permits := sems, got := (loc i).got } := hΦ.1
    have hnone : g.live i = none := by
      by_contra hlive
      have := hret i hlive
      rw [hl] at this
      cases this
    refine h.move fun φ hφ => ?_
    rw [hnone, hφ (loc i) (.live (some sems)) (by rw [hl]; rfl) (by rw [hl]; rfl) (by rw [hl]; rfl),
      hφ (@AdmissionOp.loc ι (.handOut sems) a (loc i)) (.live none) rfl rfl rfl]
    exact Nat.add_comm _ _
  | take permit =>
    have hl : loc i = {} := hΦ
    have hlive : g.live permit = some a := by simpa [AdmissionOp.can] using hc
    refine h.move fun φ hφ => ?_
    rw [hlive, hl, hφ (@AdmissionOp.loc ι (.take permit) a {}) (.live (some a)) rfl rfl rfl]
    exact Nat.add_comm _ _

theorem held_reach {ok : AdmissionConf ι → Label (AdmissionSig ι) ι Empty → Prop} {calls : ι → AdmissionCall ι}
    {c : AdmissionConf ι} (hr : Reach (admissionWorld ι) ok (admissionStart maxInFlight calls) c) :
    Held maxInFlight c.loc c.sh ∧ Returned c.loc c.sh := by
  refine (admissionStart_typed maxInFlight calls).pool
    (J := fun loc g => Held maxInFlight loc g ∧ Returned loc g) ⟨?_, fun i hi => absurd rfl hi⟩
    (fun c i o a h hΦ _ hc => ⟨held_answer h.1 h.2 hΦ hc, returned_answer h.2⟩) (fun _ _ _ _ _ _ hd => by cases hd)
    (fun _ e => e.elim) hr
  refine ⟨.empty, fun _ => ?_, fun _ => ?_, ?_⟩
  · simp [admissionStart, Controller.new, total, Owns.refs, Owns.live, Registry.empty]
  · simp [admissionStart, Controller.new, total, Owns.permitsOn, Owns.live]
  · simp [admissionStart, Controller.new, total, Owns.globals, Owns.live]

/-! ## The permits of a scope -/

/-- The permits that are of semaphores of `scope`. -/
def Owns.permitsIn (names : List String) (scope : String) (l : Owns) : Nat :=
  l.permits.countP fun s => names[s]? = some scope

omit [DecidableEq ι] in
theorem Held.refs_pos (h : Held maxInFlight loc g) {s : Nat} (hs : 0 < total (Owns.permitsOn s) loc g.live) :
    0 < g.scopes.refs s := lt_of_lt_of_le hs (h.permits_le_refs s)

omit [DecidableEq ι] in
theorem Held.permitsIn_eq (h : Held maxInFlight loc g) (scope : String) :
    total (Owns.permitsIn g.scopes.names scope) loc g.live =
      match g.scopes.find scope with
      | some s => total (Owns.permitsOn s) loc g.live
      | none => 0 := by
  have hfind : ∀ l : Owns, (∀ s, l.permitsOn s ≤ total (Owns.permitsOn s) loc g.live) →
      ∀ s ∈ l.permits, g.scopes.names[s]? = some scope → g.scopes.find scope = some s := by
    intro l hle s hs hname
    exact h.sound.find_of_refs (h.refs_pos (lt_of_lt_of_le (List.count_pos_iff.mpr hs) (hle s))) hname
  have hloc : ∀ j s, (loc j).permitsOn s ≤ total (Owns.permitsOn s) loc g.live := fun j s =>
    le_trans (le_sum (Owns.permitsOn s) loc j) (Nat.le_add_right _ _)
  have hlive : ∀ j s, (Owns.live (g.live j)).permitsOn s ≤ total (Owns.permitsOn s) loc g.live := fun j s =>
    le_trans (le_sum (fun x => Owns.permitsOn s (.live x)) g.live j) (Nat.le_add_left _ _)
  cases hf : g.scopes.find scope with
  | none =>
    have hzero : ∀ l : Owns, (∀ s, l.permitsOn s ≤ total (Owns.permitsOn s) loc g.live) →
        l.permitsIn g.scopes.names scope = 0 := by
      intro l hle
      refine List.countP_eq_zero.mpr fun s hs hname => ?_
      rw [hfind l hle s hs (of_decide_eq_true hname)] at hf
      cases hf
    unfold total
    rw [Finset.sum_eq_zero fun j _ => hzero _ (hloc j), Finset.sum_eq_zero fun j _ => hzero _ (hlive j)]
    rfl
  | some s =>
    have hname : g.scopes.names[s]? = some scope := h.sound.named _ (Registry.mem_of_find hf)
    have hcount : ∀ l : Owns, (∀ s, l.permitsOn s ≤ total (Owns.permitsOn s) loc g.live) →
        l.permitsIn g.scopes.names scope = l.permitsOn s := by
      intro l hle
      refine List.countP_congr fun s' hs' => ?_
      simp only [decide_eq_true_eq, beq_iff_eq]
      constructor
      · intro hname'
        have := hfind l hle s' hs' hname'
        rw [hf] at this
        exact (Option.some.inj this).symm
      · rintro rfl
        exact hname
    unfold total
    rw [Finset.sum_congr rfl fun j _ => hcount _ (hloc j), Finset.sum_congr rfl fun j _ => hcount _ (hlive j)]

end

/-! ## Limits -/

section
variable {ι : Type} {g : Controller ι} {scope : String} {limit : Nat}

/-- What an entry does to names and limits: an old semaphore keeps both, and one made for
the caller has the caller's limit. -/
theorem entrySh_limits :
    (∀ s < g.scopes.names.length, (AdmissionOp.entrySh scope limit g).scopes.names[s]? = g.scopes.names[s]? ∧
        (AdmissionOp.entrySh scope limit g).limits s = g.limits s) ∧
      ∀ s, g.scopes.names.length ≤ s → ∀ k, (AdmissionOp.entrySh scope limit g).scopes.names[s]? = some k →
        k = scope ∧ (AdmissionOp.entrySh scope limit g).limits s = max limit 1 := by
  unfold AdmissionOp.entrySh Registry.entry
  cases hf : g.scopes.find scope with
  | some o =>
    refine ⟨fun s _ => ⟨rfl, rfl⟩, fun s hs k hk => ?_⟩
    have hlt := (List.getElem?_eq_some_iff.mp hk).1
    exact absurd hlt (Nat.not_lt.mpr hs)
  | none =>
    constructor
    · intro s hs
      refine ⟨List.getElem?_append_left hs, ?_⟩
      simp only [Function.update_of_ne (Nat.ne_of_lt hs)]
    · intro s hs k hk
      have hlt := (List.getElem?_eq_some_iff.mp hk).1
      have hs' : s = g.scopes.names.length := by
        simp only [Registry.insert, List.length_append, List.length_singleton] at hlt
        omega
      subst hs'
      refine ⟨?_, by simp⟩
      simpa [Registry.insert, eq_comm] using hk

/-- Every semaphore was created with the limit of its scope. -/
def Rated (limits : String → Nat) (g : Controller ι) : Prop :=
  ∀ s k, g.scopes.names[s]? = some k → g.limits s = max (limits k) 1

theorem rated_answer [DecidableEq ι] {limits : String → Nat} (h : Rated limits g) {i : ι}
    {scopes : List (String × Nat)} (hscopes : ∀ e ∈ scopes, e.2 = limits e.1) {l : Owns} {o : AdmissionOp ι}
    {a : (AdmissionSig ι).Ans o} (hΦ : Owning scopes o l) : Rated limits (o.sh i a g) := by
  cases o with
  | entry scope limit =>
    cases a with
    | none => exact h
    | some sem =>
      have hlimit : limit = limits scope := hscopes _ hΦ.1
      intro s k hk
      obtain ⟨hold, hnew⟩ := @entrySh_limits ι g scope limit
      by_cases hs : s < g.scopes.names.length
      · have hk' := hk
        rw [AdmissionOp.sh, (hold s hs).1] at hk'
        rw [AdmissionOp.sh, (hold s hs).2]
        exact h s k hk'
      · obtain ⟨rfl, he⟩ := hnew s (Nat.not_lt.mp hs) k hk
        rw [AdmissionOp.sh, he, hlimit]
  | tryGlobal => cases a <;> exact h
  | lockScopes => cases a <;> exact h
  | tryAcquire sem => cases a <;> exact h
  | _ => exact h

end

/-! ## Runs -/

section
variable {ι : Type} [Fintype ι]

/-- The permits of the global semaphore that are out. -/
def AdmissionConf.inFlight (c : AdmissionConf ι) : Nat := total Owns.globals c.loc c.sh.live

/-- The permits of `scope` that are out. -/
def AdmissionConf.livePermits (c : AdmissionConf ι) (scope : String) : Nat :=
  total (Owns.permitsIn c.sh.scopes.names scope) c.loc c.sh.live

/-- The permits of `scope` that a call would find; a scope that is not tracked gets a
new semaphore. -/
def AdmissionConf.available (limits : String → Nat) (c : AdmissionConf ι) (scope : String) : Nat :=
  match c.sh.scopes.find scope with
  | some s => c.sh.available s
  | none => max (limits scope) 1

variable [DecidableEq ι]

/-- `φ` of what all calls but `i` own and have out. -/
def AdmissionConf.others (φ : Owns → Nat) (c : AdmissionConf ι) (i : ι) : Nat :=
  ∑ j ∈ Finset.univ.erase i, (φ (c.loc j) + φ (.live (c.sh.live j)))

theorem AdmissionConf.others_eq {φ : Owns → Nat} (hφ : ∀ got, φ { got := got } = 0) {c : AdmissionConf ι} {i : ι}
    (hi : c.loc i = { got := (c.loc i).got } ∧ c.sh.live i = none) : c.others φ i = total φ c.loc c.sh.live := by
  have hloc : φ (c.loc i) = 0 := by rw [hi.1, hφ]
  have hlive : φ (.live (c.sh.live i)) = 0 := by rw [hi.2]; exact hφ []
  unfold AdmissionConf.others total
  rw [← Finset.sum_add_distrib, ← Finset.add_sum_erase _ _ (Finset.mem_univ i), hloc, hlive]
  simp

variable {maxInFlight : Nat} {calls : ι → AdmissionCall ι} {c : AdmissionConf ι}

omit [Fintype ι] in
theorem rated_reach {limits : String → Nat} (hlimits : ∀ i, ∀ e ∈ (calls i).scopes, e.2 = limits e.1)
    (hr : Reach (admissionWorld ι) (fun _ _ => True) (admissionStart maxInFlight calls) c) : Rated limits c.sh := by
  refine (admissionStart_typed maxInFlight calls).pool (J := fun _ g => Rated limits g) ?_
    (fun c i o a h hΦ _ _ => rated_answer h (hlimits i) hΦ) (fun _ _ _ _ _ _ hd => by cases hd) (fun _ e => e.elim) hr
  intro s k hk
  cases hk

/-- A call that has not begun, or has ended without a permit, owns nothing. -/
theorem owns_nothing (hr : Reach (admissionWorld ι) (fun _ _ => True) (admissionStart maxInFlight calls) c) {i : ι}
    (hi : c.prog i = some (calls i).prog ∨ c.prog i = some (.done .busy)) :
    c.loc i = { got := (c.loc i).got } ∧ c.sh.live i = none := by
  have hloc : c.loc i = { got := (c.loc i).got } := by
    have htyped := (admissionStart_typed maxInFlight calls).reach hr
    rcases hi with hi | hi
    · have hstart := htyped i _ hi
      cases hcall : calls i with
      | tryAcquireForAll scopes =>
        rw [hcall] at hstart
        rw [show c.loc i = {} from hstart.1]
      | dropPermit permit =>
        rw [hcall] at hstart
        rw [show c.loc i = {} from hstart.1]
    · exact (htyped i _ hi).1
  refine ⟨hloc, ?_⟩
  by_contra hlive
  have := (held_reach hr).2 i hlive
  rw [hloc] at this
  cases this

omit [DecidableEq ι] in
theorem available_add (limits : String → Nat) (hheld : Held maxInFlight c.loc c.sh) (hrated : Rated limits c.sh)
    (scope : String) : c.available limits scope + c.livePermits scope = max (limits scope) 1 := by
  unfold AdmissionConf.available AdmissionConf.livePermits
  rw [hheld.permitsIn_eq]
  cases hf : c.sh.scopes.find scope with
  | none => rfl
  | some s =>
    rw [← hrated s scope (hheld.sound.named _ (Registry.mem_of_find hf))]
    exact hheld.permits s

/-- The permits stay within their limits, and a call that is turned away has left what
the others have not changed as it was. -/
theorem permits_within_limits (maxInFlight : Nat) (limits : String → Nat) (calls : ι → AdmissionCall ι)
    (hlimits : ∀ i, ∀ e ∈ (calls i).scopes, e.2 = limits e.1)
    {c : AdmissionConf ι} (hr : Reach (admissionWorld ι) (fun _ _ => True) (admissionStart maxInFlight calls) c) :
    c.inFlight ≤ max maxInFlight 1 ∧ (∀ scope, c.livePermits scope ≤ max (limits scope) 1) ∧
      ∀ i (c' : AdmissionConf ι), Reach (admissionWorld ι) (fun _ _ => True) c c' → c.prog i = some (calls i).prog →
        c'.result i = some .busy →
        c'.sh.global + c'.others Owns.globals i = c.sh.global + c.others Owns.globals i ∧
          ∀ scope, c'.available limits scope + c'.others (Owns.permitsIn c'.sh.scopes.names scope) i =
            c.available limits scope + c.others (Owns.permitsIn c.sh.scopes.names scope) i := by
  have hheld := (held_reach hr).1
  have hrated := rated_reach hlimits hr
  refine ⟨?_, fun scope => ?_, fun i c' hr' hbegin hbusy => ?_⟩
  · have := hheld.global
    unfold AdmissionConf.inFlight
    omega
  · have := available_add limits hheld hrated scope
    omega
  · have hall := hr.trans hr'
    have hheld' := (held_reach hall).1
    have hrated' := rated_reach hlimits hall
    have hbefore := owns_nothing hr (.inl hbegin)
    have hafter := owns_nothing hall (.inr (Conf.prog_of_result hbusy))
    refine ⟨?_, fun scope => ?_⟩
    · rw [AdmissionConf.others_eq (fun _ => rfl) hbefore, AdmissionConf.others_eq (fun _ => rfl) hafter,
        hheld.global, hheld'.global]
    · rw [AdmissionConf.others_eq (fun _ => rfl) hbefore, AdmissionConf.others_eq (fun _ => rfl) hafter]
      exact (available_add limits hheld' hrated' scope).trans (available_add limits hheld hrated scope).symm

/-- The right answer to a call; nothing is pruned. -/
def AdmissionOp.answer (g : Controller ι) : (o : AdmissionOp ι) → Option ((AdmissionSig ι).Ans o)
  | .tryGlobal => some (decide (0 < g.global))
  | .lockScopes => some (!g.poisoned)
  | .retain => some []
  | .entry scope _ => some (some (g.scopes.entry scope).1)
  | .tryAcquire sem => some (decide (0 < g.available sem))
  | .take permit => g.live permit
  | .unlockScopes | .addPermit _ | .dropArc _ | .addGlobal | .handOut _ => some ()

def turns (i : ι) (n : Nat) : List (Choice (AdmissionSig ι) ι (Controller ι) Empty) :=
  List.replicate n (.answer i fun o g => AdmissionOp.answer g o)

end

def oneEach : Bool → AdmissionCall Bool := fun _ => .tryAcquireForAll [("team:platform", 1)]

/-- Both calls have taken a global permit before one of them gets the scope's. -/
theorem permits_within_limits_busy : ∃ c : AdmissionConf Bool, c.result true = some .admitted ∧
    c.result false = some .busy ∧ c.livePermits "team:platform" ≤ 1 ∧
    c.sh.global + c.others Owns.globals false = 2 := by
  have hrun : ∃ c : AdmissionConf Bool, Reach (admissionWorld Bool) (fun _ _ => True) (admissionStart 2 oneEach) c ∧
      c.result true = some .admitted ∧ c.result false = some .busy :=
    Conf.exists_reach (turns true 1 ++ turns false 1 ++ turns true 6 ++ turns false 7) (by decide)
  obtain ⟨c, hr, htrue, hfalse⟩ := hrun
  have hbounds := permits_within_limits 2 (fun _ => 1) oneEach (by decide) hr
  have hbusy := (permits_within_limits 2 (fun _ => 1) oneEach (by decide) .refl).2.2 false c hr rfl hfalse
  exact ⟨c, htrue, hfalse, hbounds.2.1 _, hbusy.1.trans (by decide)⟩

end Llmctl.Admission
