import Llmctl.Async.World
import Mathlib.Data.Finset.Card

/-!
# One admission gate under threads

`WorkerAdmission` is two atomics. `try_enter` loads the flag, counts itself,
loads the flag again and takes its count back when the gate has closed since.
Threads interleave between these steps. The counter is an unbounded number: each
guard holds a reference to the gate, and those are counted below 2^63.
-/

namespace Llmctl.Gate

open Async

/-! ## The gate -/

inductive GateOp where
  | isAdmitting
  | inFlight
  | setAdmitting (value : Bool)
  | fetchAdd
  | fetchSub
  | newGuard
  | dropGuard
  deriving DecidableEq

@[reducible] def GateSig : Sig where
  Op := GateOp
  Ans
    | .isAdmitting => Bool
    | .inFlight => Nat
    | _ => Unit

abbrev GateProg := Prog GateSig

/-- The gate and the number of its `InFlightGuard`s that exist. -/
structure WorkerAdmission where
  admitting : Bool
  inFlight : Nat
  guards : Nat

def WorkerAdmission.ready : WorkerAdmission := ⟨true, 0, 0⟩

/-- Where a thread stands in `try_enter`. -/
inductive Entering where
  | idle
  | counted
  | admitted
  deriving DecidableEq

namespace GateOp

def can (g : WorkerAdmission) : (o : GateOp) → GateSig.Ans o → Bool
  | .isAdmitting, a => a == g.admitting
  | .inFlight, n => n == g.inFlight
  | .dropGuard, _ => decide (0 < g.guards)
  | _, _ => true

def loc : (o : GateOp) → GateSig.Ans o → Entering → Entering
  | .fetchAdd, _, _ => .counted
  | .isAdmitting, true, .counted => .admitted
  | .fetchSub, _, _ | .newGuard, _, _ => .idle
  | _, _, e => e

def sh : GateOp → WorkerAdmission → WorkerAdmission
  | .setAdmitting value, g => { g with admitting := value }
  | .fetchAdd, g => { g with inFlight := g.inFlight + 1 }
  | .fetchSub, g => { g with inFlight := g.inFlight - 1 }
  | .newGuard, g => { g with guards := g.guards + 1 }
  | .dropGuard, g => { g with inFlight := g.inFlight - 1, guards := g.guards - 1 }
  | _, g => g

end GateOp

/-- `WorkerAdmission::try_enter`: whether a guard was made. -/
def tryEnter : GateProg Bool := do
  if ← Prog.op (S := GateSig) .isAdmitting then
    Prog.op (S := GateSig) .fetchAdd
    if ← Prog.op (S := GateSig) .isAdmitting then
      Prog.op (S := GateSig) .newGuard
      pure true
    else
      Prog.op (S := GateSig) .fetchSub
      pure false
  else pure false

/-! ## Threads -/

/-- What a thread does with the gate; a guard may be dropped by another thread than
the one that entered. -/
inductive GateCall where
  | tryEnter
  | dropGuard
  | inFlight
  | setAdmitting (value : Bool)
  deriving DecidableEq

@[reducible] def GateCallSig : Sig where
  Op := GateCall
  Ans
    | .tryEnter => Bool
    | .inFlight => Nat
    | _ => Unit

def GateCall.prog : (o : GateCall) → GateProg (GateCallSig.Ans o)
  | .tryEnter => Gate.tryEnter
  | .dropGuard => Prog.op (S := GateSig) .dropGuard
  | .inFlight => Prog.op (S := GateSig) .inFlight
  | .setAdmitting value => Prog.op (S := GateSig) (.setAdmitting value)

def gateWorld (ι : Type) : World GateSig ι Entering WorkerAdmission Empty where
  can _ o a _ g := o.can g a
  loc _ o a l := o.loc a l
  sh _ o _ _ g := o.sh g
  canDrop _ _ := false
  dropLoc _ _ l := l
  dropSh _ _ _ g := g
  canEnv e _ := e.elim
  env e _ := e.elim

abbrev GateConf (ι α : Type) := Conf GateSig α ι Entering WorkerAdmission

def gateStart {ι α : Type} (threads : ι → Prog GateCallSig α) : GateConf ι α where
  prog i := some ((threads i).interp GateCall.prog)
  loc _ := .idle
  sh := .ready

/-! ## Drained gates -/

section
variable {ι α : Type}

/-- What a call of the gate needs of its thread. -/
def Entered : GateOp → Entering → Prop
  | .fetchAdd, e | .dropGuard, e => e = .idle
  | .fetchSub, e => e = .counted
  | .newGuard, e => e = .admitted
  | _, _ => True

theorem tryEnter_always (i : ι) :
    Always (gateWorld ι) i Entered (fun _ e => e = .idle) tryEnter .idle := by
  refine ⟨trivial, fun a _ _ => ?_⟩
  cases a with
  | false => exact rfl
  | true =>
    refine ⟨rfl, fun _ _ _ => ⟨trivial, fun a _ _ => ?_⟩⟩
    cases a with
    | false => exact ⟨rfl, fun _ _ _ => rfl⟩
    | true => exact ⟨rfl, fun _ _ _ => rfl⟩

theorem gateStart_typed (threads : ι → Prog GateCallSig α) :
    Typed (gateWorld ι) (fun _ => Entered) (fun _ _ e => e = .idle) (gateStart threads) := by
  intro i p hp
  cases hp
  refine Always.interp (P := fun e : Entering => e = .idle) (fun o l hl => ?_) (threads i) rfl
  subst hl
  cases o with
  | tryEnter => exact tryEnter_always i
  | dropGuard => exact ⟨rfl, fun _ _ _ => rfl⟩
  | inFlight => exact ⟨trivial, fun _ _ _ => rfl⟩
  | setAdmitting value => exact ⟨trivial, fun _ _ _ => rfl⟩

/-- `in_flight` counts the guards and the threads inside `try_enter` that have counted
themselves. -/
def Counted (loc : ι → Entering) (g : WorkerAdmission) : Prop :=
  ∃ s : Finset ι, (∀ i, i ∈ s ↔ loc i ≠ .idle) ∧ g.inFlight = g.guards + s.card

structure Quiescent (loc : ι → Entering) (g : WorkerAdmission) : Prop where
  closed : g.admitting = false
  empty : g.guards = 0
  none_admitted : ∀ i, loc i ≠ .admitted

variable [DecidableEq ι] {loc : ι → Entering} {g : WorkerAdmission} {i : ι}

theorem Counted.stay (h : Counted loc g) {e : Entering} (he : e = .idle ↔ loc i = .idle) {g' : WorkerAdmission}
    (hg : g'.inFlight + g.guards = g.inFlight + g'.guards) : Counted (Function.update loc i e) g' := by
  obtain ⟨s, hs, hc⟩ := h
  refine ⟨s, fun j => ?_, by omega⟩
  by_cases hj : j = i
  · subst hj
    rw [Function.update_self, hs, ne_eq, ne_eq, he]
  · rw [Function.update_of_ne hj, hs]

theorem Counted.enter (h : Counted loc g) (hi : loc i = .idle) :
    Counted (Function.update loc i .counted) (GateOp.sh .fetchAdd g) := by
  obtain ⟨s, hs, hc⟩ := h
  have hnot : i ∉ s := by rw [hs]; simp [hi]
  refine ⟨insert i s, fun j => ?_, ?_⟩
  · by_cases hj : j = i
    · subst hj; simp
    · rw [Function.update_of_ne hj, Finset.mem_insert, hs]
      simp [hj]
  · rw [Finset.card_insert_of_notMem hnot]
    simp only [GateOp.sh]
    omega

theorem Counted.leave (h : Counted loc g) (hi : loc i ≠ .idle) {g' : WorkerAdmission}
    (hg : g'.inFlight + g.guards + 1 = g.inFlight + g'.guards) : Counted (Function.update loc i .idle) g' := by
  obtain ⟨s, hs, hc⟩ := h
  have hmem : i ∈ s := (hs i).mpr hi
  have hpos : 0 < s.card := Finset.card_pos.mpr ⟨i, hmem⟩
  refine ⟨s.erase i, fun j => ?_, ?_⟩
  · by_cases hj : j = i
    · subst hj; simp
    · rw [Function.update_of_ne hj, Finset.mem_erase, hs]
      simp [hj]
  · rw [Finset.card_erase_of_mem hmem]
    omega

omit [DecidableEq ι] in
theorem Counted.guards_le (h : Counted loc g) : g.guards ≤ g.inFlight := by
  obtain ⟨s, _, hc⟩ := h
  omega

omit [DecidableEq ι] in
theorem Counted.pos (h : Counted loc g) (hi : loc i ≠ .idle) : g.guards < g.inFlight := by
  obtain ⟨s, hs, hc⟩ := h
  have hpos : 0 < s.card := Finset.card_pos.mpr ⟨i, (hs i).mpr hi⟩
  omega

theorem counted_answer {o : GateOp} {a : GateSig.Ans o} (h : Counted loc g) (hΦ : Entered o (loc i))
    (hcan : o.can g a = true) : Counted (Function.update loc i (o.loc a (loc i))) (o.sh g) := by
  cases o with
  | isAdmitting =>
    refine h.stay ?_ rfl
    cases a <;> cases hl : loc i <;> simp [GateOp.loc]
  | inFlight => exact h.stay Iff.rfl rfl
  | setAdmitting value => exact h.stay Iff.rfl rfl
  | fetchAdd => exact h.enter hΦ
  | fetchSub =>
    have hi : loc i ≠ .idle := by rw [show loc i = .counted from hΦ]; decide
    have hpos := h.pos hi
    refine h.leave hi ?_
    simp only [GateOp.sh]
    omega
  | newGuard =>
    have hi : loc i ≠ .idle := by rw [show loc i = .admitted from hΦ]; decide
    refine h.leave hi ?_
    simp only [GateOp.sh]
    omega
  | dropGuard =>
    have hg : 0 < g.guards := by simpa [GateOp.can] using hcan
    have hle := h.guards_le
    refine h.stay Iff.rfl ?_
    simp only [GateOp.sh]
    omega

omit [DecidableEq ι] in
theorem Counted.quiescent (h : Counted loc g) (hclosed : g.admitting = false) (hzero : g.inFlight = 0) :
    Quiescent loc g := by
  refine ⟨hclosed, ?_, fun i hi => ?_⟩
  · have := h.guards_le
    omega
  · have := h.pos (i := i) (by rw [hi]; decide)
    omega

theorem quiescent_answer {o : GateOp} {a : GateSig.Ans o} (h : Quiescent loc g) (hΦ : Entered o (loc i))
    (hcan : o.can g a = true) (ho : o ≠ .setAdmitting true) :
    Quiescent (Function.update loc i (o.loc a (loc i))) (o.sh g) := by
  have hloc : ∀ e, e ≠ .admitted → ∀ j, Function.update loc i e j ≠ .admitted := by
    intro e he j
    by_cases hj : j = i
    · subst hj; rw [Function.update_self]; exact he
    · rw [Function.update_of_ne hj]; exact h.none_admitted j
  cases o with
  | isAdmitting =>
    have ha : a = false := by simpa [GateOp.can, h.closed] using hcan
    subst ha
    exact ⟨h.closed, h.empty, hloc _ (h.none_admitted i)⟩
  | inFlight => exact ⟨h.closed, h.empty, hloc _ (h.none_admitted i)⟩
  | setAdmitting value =>
    cases value with
    | true => exact absurd rfl ho
    | false => exact ⟨rfl, h.empty, hloc _ (h.none_admitted i)⟩
  | fetchAdd => exact ⟨h.closed, h.empty, hloc _ (by simp [GateOp.loc])⟩
  | fetchSub => exact ⟨h.closed, h.empty, hloc _ (by simp [GateOp.loc])⟩
  | newGuard => exact absurd hΦ (h.none_admitted i)
  | dropGuard =>
    have hg : 0 < g.guards := by simpa [GateOp.can] using hcan
    rw [h.empty] at hg
    cases hg

end

/-! ## Runs -/

section
variable {ι α : Type} [DecidableEq ι]

/-- The steps of a run in which nobody opens the gate again. -/
def NotReopened (_ : GateConf ι α) : Label GateSig ι Empty → Prop
  | .answer _ o _ => o ≠ .setAdmitting true
  | _ => True

theorem counted_reach {threads : ι → Prog GateCallSig α} {ok : GateConf ι α → Label GateSig ι Empty → Prop}
    {c : GateConf ι α} (hr : Reach (gateWorld ι) ok (gateStart threads) c) : Counted c.loc c.sh :=
  (gateStart_typed threads).pool (J := Counted) ⟨∅, by simp [gateStart], rfl⟩
    (fun _ _ _ _ h hΦ _ hcan => counted_answer h hΦ hcan) (fun _ _ _ _ _ _ hd => by cases hd)
    (fun _ e => e.elim) hr

theorem closed_reach {c c' : GateConf ι α} (hr : Reach (gateWorld ι) NotReopened c c') (h : c.sh.admitting = false) :
    c'.sh.admitting = false := by
  refine hr.invariant (J := fun c => c.sh.admitting = false) h fun c l c' hc hok hs => ?_
  cases hs with
  | @answer i o k a hp hcan =>
    cases o with
    | setAdmitting value =>
      cases value with
      | true => exact absurd rfl hok
      | false => rfl
    | _ => exact hc
  | drop _ hd => cases hd
  | @env e _ => exact e.elim

/-- Once the gate is closed for good, a read of zero means that no guard exists and
none will exist. -/
theorem drained_for_good (threads : ι → Prog GateCallSig α) {c₁ c₂ c₃ c₄ : GateConf ι α} {i j : ι}
    (h₁ : Reach (gateWorld ι) (fun _ _ => True) (gateStart threads) c₁)
    (hclose : Step (gateWorld ι) c₁ (.answer i (.setAdmitting false) ()) c₂)
    (h₂ : Reach (gateWorld ι) NotReopened c₂ c₃)
    (hread : Step (gateWorld ι) c₃ (.answer j .inFlight 0) c₄) :
    c₃.sh.guards = 0 ∧ ∀ c₅, Reach (gateWorld ι) NotReopened c₄ c₅ → c₅.sh.guards = 0 := by
  have hall : Reach (gateWorld ι) (fun _ _ => True) (gateStart threads) c₃ :=
    (h₁.step trivial hclose).trans (h₂.mono fun _ _ _ => trivial)
  have hclosed : c₃.sh.admitting = false := closed_reach h₂ (by cases hclose; rfl)
  have hzero : c₃.sh.inFlight = 0 := by
    cases hread with
    | answer _ hcan =>
      have hn : ((0 : Nat) == c₃.sh.inFlight) = true := hcan
      exact (beq_iff_eq.mp hn).symm
  have hq : Quiescent c₃.loc c₃.sh := (counted_reach hall).quiescent hclosed hzero
  refine ⟨hq.empty, fun c₅ h₅ => ?_⟩
  have hlater : Reach (gateWorld ι) NotReopened c₃ c₅ :=
    Reach.trans (.step .refl (by intro h; cases h) hread) h₅
  have hq₅ : Quiescent c₅.loc c₅.sh :=
    ((gateStart_typed threads).reach hall).pool (J := Quiescent) hq
      (fun _ _ _ _ h hΦ hok hcan => quiescent_answer h hΦ hcan hok) (fun _ _ _ _ _ _ hd => by cases hd)
      (fun _ e => e.elim) hlater
  exact hq₅.empty

def raceThreads : Bool → Prog GateCallSig Unit
  | true => do
    if ← Prog.op (S := GateCallSig) .tryEnter then Prog.op (S := GateCallSig) .dropGuard
  | false => do
    Prog.op (S := GateCallSig) (.setAdmitting false)
    let _ ← Prog.op (S := GateCallSig) .inFlight

/-- The gate closes between the two loads of the request. -/
theorem drained_after_race : ∃ c : GateConf Bool Unit, c.sh.admitting = false ∧
    ∀ c', Reach (gateWorld Bool) NotReopened c c' → c'.sh.guards = 0 := by
  have h₁ : Reach (gateWorld Bool) (fun _ _ => True) (gateStart raceThreads) _ :=
    .step (.step .refl trivial (.answer (i := true) (a := true) rfl rfl)) trivial (.answer (i := true) (a := ()) rfl rfl)
  obtain ⟨-, h⟩ := drained_for_good raceThreads h₁ (.answer (i := false) rfl rfl)
    (.step (.step .refl (by simp [NotReopened]) (.answer (i := true) (o := GateOp.isAdmitting) (a := false) rfl rfl))
      (by simp [NotReopened]) (.answer (i := true) (o := GateOp.fetchSub) (a := ()) rfl rfl))
    (.answer (i := false) rfl rfl)
  exact ⟨_, rfl, h⟩

end

end Llmctl.Gate
