import Llmctl.Async.Owned
import Llmctl.Store.Locks

/-!
# One closure of a scope at a time

Every reference to a lock is that of a call, or of one that was dropped (`Locked`). A
referenced lock is still the one in the table, so calls of one scope have the same.
-/

namespace Llmctl

open Async

section
variable {C : Sig} {ι α : Type}

/-! ## One call -/

def Locking (scope : String) : LockOp C → LockOwner → Prop
  | .lockTable, l | .retain, l => l = {}
  | .entry scope', l => scope' = scope ∧ l = {}
  | .unlockTable, l | .lockOwned, l | .dropArc, l => ∃ lock, l = { arc := some lock }
  | .unlock, l | .closure _, l | .other _, l => ∃ lock, l = { arc := some lock, guard := true }

/-- The call has its scope's lock. -/
def HasLock (l : LockOwner) : Prop := ∃ lock, l = { arc := some lock, guard := true }

variable {st : Storage} {s : String} {i : ι} {l : LockOwner}

theorem always_lockLocal : Always (lockWorld C ι) i (Locking s) (fun _ l => HasLock l) (StoreOp.locks (.lockLocal s)) {} := by
  refine Always.op rfl fun _ _ _ => Always.op rfl fun _ _ _ => Always.op ⟨rfl, rfl⟩ fun lock _ _ => ?_
  refine Always.op ⟨lock, rfl⟩ fun _ _ _ => ?_
  exact ⟨⟨lock, rfl⟩, fun _ _ _ => ⟨lock, rfl⟩⟩

theorem always_unlockLocal (h : HasLock l) :
    Always (lockWorld C ι) i (Locking s) (fun _ l => l = {}) (StoreOp.locks (.unlockLocal s)) l := by
  obtain ⟨lock, rfl⟩ := h
  exact Always.op ⟨lock, rfl⟩ fun _ _ _ => ⟨⟨lock, rfl⟩, fun _ _ _ => rfl⟩

theorem always_guard :
    Always (lockWorld C ι) i (Locking s)
      (fun (r : Result Unit) l => match r with
        | .ok _ => HasLock l
        | .error _ => l = {})
      ((st.quotaAdmissionGuard s).interp StoreOp.locks) {} := by
  refine always_lockLocal.seq fun _ l hl => ?_
  cases st.dialect with
  | sqlite => exact hl
  | postgres =>
    refine Always.op hl fun conn _ _ => ?_
    cases conn with
    | error err => exact (always_unlockLocal hl).seq fun _ _ h => h
    | ok _ =>
      refine Always.op hl fun answer _ _ => ?_
      cases answer with
      | error err => exact Always.op hl fun _ _ _ => (always_unlockLocal hl).seq fun _ _ h => h
      | ok _ => exact hl

theorem always_releaseLock (hl : HasLock l) :
    Always (lockWorld C ι) i (Locking s) (fun _ l => l = {}) ((st.release s).interp StoreOp.locks) l := by
  unfold Storage.release
  cases st.dialect with
  | sqlite => exact (always_unlockLocal hl).seq fun _ _ h => h
  | postgres =>
    refine Always.op hl fun answer _ _ => ?_
    cases answer with
    | ok _ => exact Always.op hl fun _ _ _ => (always_unlockLocal hl).seq fun _ _ h => h
    | error err => exact Always.op hl fun _ _ _ => (always_unlockLocal hl).seq fun _ _ h => h

theorem always_lockedClosure {β : Type} (hl : HasLock l) (f : Prog C β) :
    Always (lockWorld C ι) i (Locking s) (fun _ l => HasLock l)
      (f.lift (T := LockSig C) LockOp.closure fun _ a => a) l := by
  induction f with
  | done b => exact hl
  | call o k ih => exact ⟨hl, fun a _ _ => ih a⟩

theorem always_lockedQuotaAdmission (f : Prog C (Result α)) :
    Always (lockWorld C ι) i (Locking s) (fun _ l => l = {}) (st.lockedQuotaAdmission s f) {} := by
  refine always_guard.seq fun r l hr => ?_
  cases r with
  | error err => exact hr
  | ok _ =>
    refine (always_lockedClosure hr f).seq fun result l hl => ?_
    exact (always_releaseLock hl).seq fun _ _ h => h

theorem lockStart_typed [DecidableEq ι] (st : Storage) (scope : ι → String) (f : ι → Prog C (Result α)) :
    Typed (lockWorld C ι) (fun i => Locking (scope i)) (fun _ _ l => l = {}) (lockStart st scope f) := by
  intro i p hp
  cases hp
  exact always_lockedQuotaAdmission (f i)

end

/-! ## All calls -/

namespace LockOwner

def refs (lock : Nat) (l : LockOwner) : Nat := if l.arc = some lock then 1 else 0

def holds (l : LockOwner) : Option Nat := if l.guard then l.arc else none

end LockOwner

section
variable {C : Sig} {ι α : Type} [Fintype ι] {scope : ι → String} {loc : ι → LockOwner} {g g' : Locks} {i : ι} {l : LockOwner}

structure Locked (scope : ι → String) (loc : ι → LockOwner) (g : Locks) : Prop where
  sound : g.locks.Sound
  refs : ∀ lock, ∑ i, (loc i).refs lock + g.dropping lock = g.locks.refs lock
  named : ∀ i lock, (loc i).arc = some lock → g.locks.names[lock]? = some (scope i)
  owned : Owned (fun i => (loc i).holds) g.locked

theorem Locked.refs_pos (h : Locked scope loc g) {lock : Nat} (hi : (loc i).arc = some lock) :
    0 < g.locks.refs lock := by
  have hone : (loc i).refs lock = 1 := by simp [LockOwner.refs, hi]
  have hle := le_sum (LockOwner.refs lock) loc i
  have := h.refs lock
  omega

/-- Calls that reference locks of one scope reference the same. -/
theorem Locked.same_lock (h : Locked scope loc g) {j : ι} (hij : scope i = scope j) {lock lock' : Nat}
    (hi : (loc i).arc = some lock) (hj : (loc j).arc = some lock') : lock = lock' :=
  h.sound.unique (h.refs_pos hi) (h.refs_pos hj) (h.named i lock hi) (hij ▸ h.named j lock' hj)

theorem Locked.exclusive (h : Locked scope loc g) {j : ι} (hij : scope i = scope j) (hi : HasLock (loc i))
    (hj : HasLock (loc j)) : i = j := by
  obtain ⟨lock, hi⟩ := hi
  obtain ⟨lock', hj⟩ := hj
  have hlock : lock = lock' := h.same_lock hij (by rw [hi]) (by rw [hj])
  exact h.owned.own i j lock (by simp [LockOwner.holds, hi]) (by simp [LockOwner.holds, hj, hlock])

variable [DecidableEq ι]

/-- A step that changes a call's references as it does the table's. -/
theorem Locked.update (h : Locked scope loc g) (hsound : g'.locks.Sound)
    (hrefs : ∀ lock, l.refs lock + g'.dropping lock + g.locks.refs lock =
      (loc i).refs lock + g.dropping lock + g'.locks.refs lock)
    (hnames : ∀ lock < g.locks.names.length, g'.locks.names[lock]? = g.locks.names[lock]?)
    (hscoped : ∀ lock, l.arc = some lock → g'.locks.names[lock]? = some (scope i))
    (howned : Owned (Function.update (fun i => (loc i).holds) i l.holds) g'.locked) :
    Locked scope (Function.update loc i l) g' where
  sound := hsound
  refs lock := by
    have hsum := sum_update_add (LockOwner.refs lock) loc i l
    have := h.refs lock
    have := hrefs lock
    omega
  named j lock hj := by
    by_cases hji : j = i
    · subst hji
      rw [Function.update_self] at hj
      exact hscoped lock hj
    · rw [Function.update_of_ne hji] at hj
      have hname := h.named j lock hj
      rw [hnames lock (List.getElem?_eq_some_iff.mp hname).1, hname]
  owned := by
    rw [comp_update_eq LockOwner.holds]
    exact howned

/-- A step that leaves a call's lock and the locks alone. -/
theorem Locked.keep (h : Locked scope loc g) (hl : l = loc i) (hsound : g'.locks.Sound)
    (hrefs : g'.locks.refs = g.locks.refs) (hnames : g'.locks.names = g.locks.names)
    (hlocked : g'.locked = g.locked) (hdropping : g'.dropping = g.dropping) :
    Locked scope (Function.update loc i l) g' := by
  refine h.update hsound ?_ ?_ ?_ ?_
  · simp [hl, hrefs, hdropping]
  · simp [hnames]
  · rw [hl, hnames]
    exact h.named i
  · rw [hl, hlocked, Function.update_eq_self]
    exact h.owned

omit [Fintype ι] in
theorem owned_keep (h : Owned (fun i => (loc i).holds) g.locked) (hl : l.holds = (loc i).holds) :
    Owned (Function.update (fun i => (loc i).holds) i l.holds) g.locked := by
  rw [hl, Function.update_eq_self i (fun i => (loc i).holds)]
  exact h

theorem locked_unlock (h : Locked scope loc g) {lock : Nat} (hi : loc i = { arc := some lock, guard := true }) :
    Locked scope (Function.update loc i { arc := some lock }) (LockOp.unlockSh (loc i) g) := by
  have hsh : LockOp.unlockSh (loc i) g = { g with locked := Function.update g.locked lock false } := by
    rw [hi]
    rfl
  rw [hsh]
  refine h.update h.sound ?_ (fun _ _ => rfl) ?_ ?_
  · simp [hi, LockOwner.refs]
  · intro lock' hl
    exact h.named i lock' (by rw [hi]; exact hl)
  · exact h.owned.release (by simp [LockOwner.holds, hi])

theorem locked_dropped (h : Locked scope loc g) {lock : Nat} (hi : loc i = { arc := some lock }) :
    Locked scope (Function.update loc i {})
      { g with dropping := Function.update g.dropping lock (g.dropping lock + 1) } := by
  refine h.update h.sound (fun lock' => ?_) (fun _ _ => rfl) nofun ?_
  · simp only [hi, LockOwner.refs, Function.update_apply]
    by_cases hl : lock' = lock
    · simp [hl, Nat.add_comm]
    · simp [hl, Ne.symm hl]
  · exact owned_keep h.owned (by rw [hi]; rfl)

theorem locked_answer (h : Locked scope loc g) {o : LockOp C} {a : (LockSig C).Ans o} (hΦ : Locking (scope i) o (loc i))
    (hc : o.can (loc i) g a = true) : Locked scope (Function.update loc i (o.loc a (loc i))) (o.sh a (loc i) g) := by
  cases o with
  | lockTable | unlockTable | closure _ | other _ => exact h.keep rfl h.sound rfl rfl rfl rfl
  | retain => exact h.keep rfl (h.sound.retain hc) rfl rfl rfl rfl
  | entry s =>
    obtain ⟨rfl, hl⟩ := hΦ
    have ha : a = (g.locks.entry (scope i)).1 := of_decide_eq_true hc
    refine h.update (h.sound.entry _) (fun lock => ?_) (fun lock hlt => Registry.entry_names _ hlt) ?_ ?_
    · simp only [LockOp.sh, LockOp.loc, hl, LockOwner.refs, h.sound.entry_refs, ← ha, Option.some.injEq, eq_comm (a := a)]
      simp
      omega
    · intro lock hlock
      have hlock' : a = lock := Option.some.inj hlock
      rw [← hlock', ha]
      exact h.sound.entry_name _
    · exact owned_keep h.owned (by simp [LockOp.loc, hl, LockOwner.holds])
  | lockOwned =>
    obtain ⟨lock, hl⟩ := hΦ
    have hfree : g.locked lock = false := by simpa [LockOp.can, hl] using hc
    have hsh : LockOp.sh (C := C) .lockOwned a (loc i) g = { g with locked := Function.update g.locked lock true } := by
      rw [LockOp.sh, hl]
    rw [hsh]
    refine h.update h.sound (fun _ => rfl) (fun _ _ => rfl) (fun lock' hlock => h.named i lock' hlock) ?_
    · have hholds : (LockOp.loc (C := C) .lockOwned a (loc i)).holds = some lock := by
        simp [LockOp.loc, LockOwner.holds, hl]
      rw [hholds]
      exact h.owned.acquire (by simp [LockOwner.holds, hl]) hfree
  | unlock =>
    obtain ⟨lock, hl⟩ := hΦ
    have hloc : LockOp.loc (C := C) .unlock a (loc i) = { arc := some lock } := by rw [LockOp.loc, hl]
    rw [hloc]
    exact locked_unlock h hl
  | dropArc =>
    obtain ⟨lock, hl⟩ := hΦ
    have hpos := h.refs_pos (i := i) (by rw [hl])
    have hsh : LockOp.sh (C := C) .dropArc a (loc i) g = { g with locks := g.locks.release lock } := by
      rw [LockOp.sh, hl]
    rw [hsh]
    refine h.update h.sound.release (fun lock' => ?_) (fun _ _ => rfl) ?_ ?_
    · simp only [LockOp.loc, hl, LockOwner.refs, Registry.release_refs]
      by_cases hl' : lock' = lock
      · simp [hl']
        omega
      · simp [hl', Ne.symm hl']
    · simp [LockOp.loc]
    · exact owned_keep h.owned (by simp [LockOp.loc, hl, LockOwner.holds])

theorem locked_drop (h : Locked scope loc g) {o : LockOp C} (hΦ : Locking (scope i) o (loc i)) (hd : o.isAwait = true) :
    Locked scope (Function.update loc i {}) (LockOp.dropSh (loc i) g) := by
  have hguard : HasLock (loc i) → Locked scope (Function.update loc i {}) (LockOp.dropSh (loc i) g) := by
    rintro ⟨lock, hl⟩
    have hunlocked := locked_unlock h hl
    have hdropped := locked_dropped hunlocked (i := i) (by rw [Function.update_self])
    rw [Function.update_idem] at hdropped
    have hsh : LockOp.dropSh (loc i) g =
        { LockOp.unlockSh (loc i) g with
          dropping := Function.update (LockOp.unlockSh (loc i) g).dropping lock
            ((LockOp.unlockSh (loc i) g).dropping lock + 1) } := by
      rw [LockOp.dropSh, hl]
    rw [hsh]
    exact hdropped
  cases o with
  | lockOwned =>
    obtain ⟨lock, hl⟩ := hΦ
    have hsh : LockOp.dropSh (loc i) g =
        { g with dropping := Function.update g.dropping lock (g.dropping lock + 1) } := by
      rw [hl]
      rfl
    rw [hsh]
    exact locked_dropped h hl
  | closure o => exact hguard hΦ
  | other o => exact hguard hΦ
  | _ => cases hd

omit [DecidableEq ι] in
/-- A dropped call's reference goes. -/
theorem locked_env (h : Locked scope loc g) {e : LockEvent} (hc : e.can g = true) : Locked scope loc (e.sh g) := by
  cases e with
  | dropArc lock =>
    have hpos : 0 < g.dropping lock := of_decide_eq_true hc
    refine ⟨h.sound.release, fun lock' => ?_, h.named, h.owned⟩
    have := h.refs lock'
    simp only [LockEvent.sh, Registry.release_refs, Function.update_apply]
    by_cases hl : lock' = lock
    · subst hl
      simp
      omega
    · simp [hl, this]

/-! ## Runs -/

/-- Two closures of one scope never run at the same time. -/
theorem closures_exclusive (st : Storage) (scope : ι → String) (f : ι → Prog C (Result α)) {c : LockConf C ι α}
    (hr : Reach (lockWorld C ι) (fun _ _ => True) (lockStart st scope f) c) {i j : ι} (hij : scope i = scope j)
    (hi : c.running i = true) (hj : c.running j = true) : i = j := by
  have htyped := (lockStart_typed st scope f).reach hr
  have hlocked : Locked scope c.loc c.sh := by
    refine (lockStart_typed st scope f).pool (J := fun loc g => Locked scope loc g) ⟨.empty, ?_, nofun, .init⟩
      (fun c i o a h hΦ _ hc => locked_answer h hΦ hc) (fun c i o h hΦ _ hd => locked_drop h hΦ hd)
      (fun c e h _ hc => locked_env h hc) hr
    simp [lockStart, LockOwner.refs, Registry.empty]
  have hholds : ∀ k, c.running k = true → HasLock (c.loc k) := by
    intro k hk
    unfold LockConf.running Conf.pending at hk
    cases hp : c.prog k with
    | none => simp [hp] at hk
    | some p =>
      cases p with
      | done a => simp [hp] at hk
      | call o q =>
        cases o with
        | closure o => exact (htyped k _ hp).1
        | _ => simp [hp] at hk
  exact hlocked.exclusive hij (hholds i hi) (hholds j hj)

end

/-- A closure that awaits once. -/
def oneAwait : Prog ⟨Unit, fun _ => Unit⟩ (Result Unit) := do
  let _ ← Prog.op (S := ⟨Unit, fun _ => Unit⟩) ()
  pure (.ok ())

def LockOp.answer (g : Locks) : (o : LockOp ⟨Unit, fun _ => Unit⟩) → Option ((LockSig ⟨Unit, fun _ => Unit⟩).Ans o)
  | .retain => some []
  | .entry scope => some (g.locks.entry scope).1
  | .other _ => none
  | .lockTable | .unlockTable | .lockOwned | .unlock | .dropArc | .closure _ => some ()

/-- The second call waits for the lock of the first, which is in its closure. -/
theorem closures_exclusive_waiting : ∃ c : LockConf ⟨Unit, fun _ => Unit⟩ Bool Unit, c.running true = true ∧
    (c.loc false).arc = some 0 ∧ ∀ i j, c.running i = true → c.running j = true → i = j := by
  let st : Storage := ⟨.sqlite, 5, fun _ => 0⟩
  have hrun : ∃ c : LockConf ⟨Unit, fun _ => Unit⟩ Bool Unit,
      Reach (lockWorld _ Bool) (fun _ _ => True) (lockStart st (fun _ => "team:platform") fun _ => oneAwait) c ∧
        c.running true = true ∧ (c.loc false).arc = some 0 :=
    Conf.exists_reach (List.replicate 5 (.answer true fun o g => o.answer g) ++
      List.replicate 4 (.answer false fun o g => o.answer g)) (by decide)
  obtain ⟨c, hr, htrue, hfalse⟩ := hrun
  exact ⟨c, htrue, hfalse, fun i j hi hj => closures_exclusive st (fun _ => "team:platform") _ hr rfl hi hj⟩

end Llmctl
