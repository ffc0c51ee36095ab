import Llmctl.Store.Session

/-!
# What goes back to the pool

While an admission waits for the answer to its lock query, or has taken the
connection out of the guard to unlock, the connection is a plain one whose session
has the lock. A future dropped there leaves a pooled session with the lock; one
dropped anywhere else does not.
-/

namespace Llmctl

open Async

section
variable {C : Sig} {ι α : Type}

/-! ## One admission -/

def Guarding (st : Storage) (s : String) : SessionOp C → Owning → Prop
  | .lockLocal s', l => s' = s ∧ l = {}
  | .acquire, l | .close, l => l = { lock := some s }
  | .statement (.lock k), l => k = st.advisoryLockKeyForScope s ∧ ∃ c, l = { lock := some s, conn := some c }
  | .response (.lock _) (.error _), l | .response (.unlock _) (.ok _), l | .dropConnection, l =>
    ∃ c, l = { lock := some s, conn := some c }
  | .response (.lock _) (.ok _), l | .intoGuard, l | .response (.unlock _) (.error _), l | .detach, l =>
    ∃ c, l = { lock := some s, conn := some c, key := some (st.advisoryLockKeyForScope s) }
  | .statement (.unlock k), l =>
    k = st.advisoryLockKeyForScope s ∧
      ∃ c, l = { lock := some s, conn := some c, key := some (st.advisoryLockKeyForScope s) }
  | .takeFromGuard, l =>
    ∃ c, l = { lock := some s, conn := some c, inGuard := true, key := some (st.advisoryLockKeyForScope s) }
  | .closure _, l =>
    l = { lock := some s } ∨
      ∃ c, l = { lock := some s, conn := some c, inGuard := true, key := some (st.advisoryLockKeyForScope s) }
  | .unlockLocal s', l => s' = s ∧ l = { lock := some s }
  | .other _, _ => False

def GuardOf (st : Storage) (s : String) (l : Owning) : Prop :=
  match st.dialect with
  | .sqlite => l = { lock := some s }
  | .postgres =>
    ∃ c, l = { lock := some s, conn := some c, inGuard := true, key := some (st.advisoryLockKeyForScope s) }

theorem GuardOf.closure {st : Storage} {s : String} {l : Owning} (h : GuardOf st s l) (o : C.Op) :
    Guarding st s (.closure o) l := by
  unfold GuardOf at h
  split at h
  · exact .inl h
  · exact .inr h

variable {st : Storage} {s : String} {i : ι}

theorem always_quotaAdmissionGuard :
    Always (sessionWorld C ι st) i (Guarding st s)
      (fun (r : Result Unit) l => match r with
        | .ok _ => GuardOf st s l
        | .error _ => l = {})
      ((st.quotaAdmissionGuard s).interp StoreOp.session) {} := by
  refine ⟨⟨rfl, rfl⟩, fun _ _ _ => ?_⟩
  unfold GuardOf
  cases hd : st.dialect with
  | sqlite => rfl
  | postgres =>
    refine ⟨rfl, fun conn _ _ => ?_⟩
    cases conn with
    | error err => exact ⟨⟨rfl, rfl⟩, fun _ _ _ => rfl⟩
    | ok c =>
      refine ⟨⟨rfl, c, rfl⟩, fun answer _ _ => ?_⟩
      cases answer with
      | error err =>
        refine ⟨⟨c, rfl⟩, fun _ _ _ => ?_⟩
        refine ⟨⟨c, rfl⟩, fun _ _ _ => ?_⟩
        exact ⟨⟨rfl, rfl⟩, fun _ _ _ => rfl⟩
      | ok _ =>
        refine ⟨⟨c, rfl⟩, fun _ _ _ => ?_⟩
        exact ⟨⟨c, rfl⟩, fun _ _ _ => ⟨c, rfl⟩⟩

theorem always_release {l : Owning} (h : GuardOf st s l) :
    Always (sessionWorld C ι st) i (Guarding st s) (fun _ l => l = {}) ((st.release s).interp StoreOp.session) l := by
  unfold GuardOf at h
  unfold Storage.release
  cases hd : st.dialect with
  | sqlite =>
    rw [hd] at h
    exact ⟨⟨rfl, h⟩, fun _ _ _ => by rw [h]; rfl⟩
  | postgres =>
    rw [hd] at h
    obtain ⟨c, rfl⟩ := h
    refine ⟨⟨c, rfl⟩, fun _ _ _ => ?_⟩
    refine ⟨⟨rfl, c, rfl⟩, fun answer _ _ => ?_⟩
    cases answer with
    | ok _ =>
      refine ⟨⟨c, rfl⟩, fun _ _ _ => ?_⟩
      refine ⟨⟨c, rfl⟩, fun _ _ _ => ?_⟩
      exact ⟨⟨rfl, rfl⟩, fun _ _ _ => rfl⟩
    | error err =>
      refine ⟨⟨c, rfl⟩, fun _ _ _ => ?_⟩
      refine ⟨⟨c, rfl⟩, fun _ _ _ => ?_⟩
      refine ⟨rfl, fun _ _ _ => ?_⟩
      exact ⟨⟨rfl, rfl⟩, fun _ _ _ => rfl⟩

theorem always_closure {β : Type} {l : Owning} (h : GuardOf st s l) (f : Prog C β) :
    Always (sessionWorld C ι st) i (Guarding st s) (fun _ l => GuardOf st s l)
      (f.lift (T := SessionSig C) SessionOp.closure fun _ a => a) l := by
  induction f with
  | done b => exact h
  | call o k ih => exact ⟨h.closure o, fun a _ _ => ih a⟩

theorem always_sessionQuotaAdmission (f : Prog C (Result α)) :
    Always (sessionWorld C ι st) i (Guarding st s) (fun _ l => l = {}) (st.sessionQuotaAdmission s f) {} := by
  refine always_quotaAdmissionGuard.seq fun r l hr => ?_
  cases r with
  | error err => exact hr
  | ok _ =>
    refine (always_closure hr f).seq fun result l hl => ?_
    exact (always_release hl).seq fun _ _ h => h

theorem sessionStart_typed [DecidableEq ι] (scope : ι → String) (f : ι → Prog C (Result α)) (g : Sessions) :
    Typed (sessionWorld C ι st) (fun i => Guarding st (scope i)) (fun _ _ l => l = {}) (sessionStart st scope f g) := by
  intro i p hp
  cases hp
  exact always_sessionQuotaAdmission (f i)

end

/-! ## All admissions -/

section
variable {C : Sig} {ι α : Type}

/-- Each connection has one owner, and a session with a lock is that of an admission
that got it. -/
structure SessionInv (loc : ι → Owning) (g : Sessions) : Prop where
  conn : ∀ i c, (loc i).conn = some c → g.conns c = .guarding
  own : ∀ i j c, (loc i).conn = some c → (loc j).conn = some c → i = j
  held : ∀ k c n, g.holder k = some (.session c n) → n = 1 ∧ ∃ i, (loc i).conn = some c ∧ (loc i).key = some k

variable {loc : ι → Owning} {g g' : Sessions} {i : ι} {l : Owning} {c : Nat}

theorem SessionInv.unlocked (h : SessionInv loc g) (hc : g.conns c ≠ .guarding) (k : Int) (n : Nat) :
    g.holder k ≠ some (.session c n) := by
  intro hk
  obtain ⟨-, i, hi, -⟩ := h.held k c n hk
  exact hc (h.conn i c hi)

/-- The session of an admission without a key has no lock. -/
theorem SessionInv.keyless (h : SessionInv loc g) (hi : (loc i).conn = some c) (hk : (loc i).key = none) (k : Int)
    (n : Nat) : g.holder k ≠ some (.session c n) := by
  intro hh
  obtain ⟨-, j, hj, hjk⟩ := h.held k c n hh
  have hji := h.own j i c hj hi
  rw [hji, hk] at hjk
  cases hjk

/-- What leaves the guards' connections and their sessions alone. -/
theorem SessionInv.shared (h : SessionInv loc g) (hconns : ∀ c, g.conns c = .guarding → g'.conns c = .guarding)
    (hholder : ∀ k c n, g'.holder k = some (.session c n) → g.holder k = some (.session c n)) :
    SessionInv loc g' where
  conn i c hi := hconns c (h.conn i c hi)
  own := h.own
  held k c n hk := h.held k c n (hholder k c n hk)

section
variable [DecidableEq ι]

theorem update_field {β : Type} (f : Owning → β) (h : f l = f (loc i)) (j : ι) :
    f (Function.update loc i l j) = f (loc j) := by
  by_cases hji : j = i
  · rw [hji, Function.update_self, h]
  · rw [Function.update_of_ne hji]

theorem SessionInv.same (h : SessionInv loc g) (hc : l.conn = (loc i).conn) (hk : l.key = (loc i).key) :
    SessionInv (Function.update loc i l) g := by
  have hconn := update_field Owning.conn hc
  have hkey := update_field Owning.key hk
  refine ⟨?_, ?_, ?_⟩
  · intro j c hj
    rw [hconn] at hj
    exact h.conn j c hj
  · intro j j' c hj hj'
    rw [hconn] at hj hj'
    exact h.own j j' c hj hj'
  · intro k c n hh
    obtain ⟨hn, j, hj, hjk⟩ := h.held k c n hh
    exact ⟨hn, j, by rw [hconn]; exact hj, by rw [hkey]; exact hjk⟩

theorem SessionInv.acquire (h : SessionInv loc g) (hi : (loc i).conn = none) (hc : g.conns c ≠ .guarding)
    (hl : l.conn = some c) (hconns : g'.conns = Function.update g.conns c .guarding) (hholder : g'.holder = g.holder) :
    SessionInv (Function.update loc i l) g' := by
  have hne : ∀ j, (loc j).conn ≠ some c := fun j hj => hc (h.conn j c hj)
  refine ⟨?_, ?_, ?_⟩
  · intro j c' hj
    by_cases hcc : c' = c
    · rw [hconns, hcc, Function.update_self]
    · rw [hconns, Function.update_of_ne hcc]
      have hji : j ≠ i := by
        intro e
        rw [e, Function.update_self, hl] at hj
        exact hcc (Option.some.inj hj).symm
      rw [Function.update_of_ne hji] at hj
      exact h.conn j c' hj
  · intro j j' c' hj hj'
    by_cases hji : j = i <;> by_cases hji' : j' = i
    · rw [hji, hji']
    · rw [hji, Function.update_self, hl] at hj
      rw [Function.update_of_ne hji'] at hj'
      exact absurd (hj'.trans hj.symm) (hne j')
    · rw [hji', Function.update_self, hl] at hj'
      rw [Function.update_of_ne hji] at hj
      exact absurd (hj.trans hj'.symm) (hne j)
    · rw [Function.update_of_ne hji] at hj
      rw [Function.update_of_ne hji'] at hj'
      exact h.own j j' c' hj hj'
  · intro k c' n hk
    rw [hholder] at hk
    obtain ⟨hn, j, hj, hjk⟩ := h.held k c' n hk
    have hji : j ≠ i := fun e => by rw [e, hi] at hj; cases hj
    exact ⟨hn, j, by rw [Function.update_of_ne hji]; exact hj, by rw [Function.update_of_ne hji]; exact hjk⟩

/-- An admission gives up its connection, whose session has no lock afterwards. -/
theorem SessionInv.giveUp (h : SessionInv loc g) (hi : (loc i).conn = some c) (hl : l.conn = none)
    (hconns : ∀ c', c' ≠ c → g'.conns c' = g.conns c')
    (hholder : ∀ k c' n, g'.holder k = some (.session c' n) → c' ≠ c ∧ g.holder k = some (.session c' n)) :
    SessionInv (Function.update loc i l) g' := by
  have hof : ∀ j c', (Function.update loc i l j).conn = some c' → j ≠ i ∧ (loc j).conn = some c' := by
    intro j c' hj
    by_cases hji : j = i
    · rw [hji, Function.update_self, hl] at hj; cases hj
    · rw [Function.update_of_ne hji] at hj; exact ⟨hji, hj⟩
  refine ⟨?_, ?_, ?_⟩
  · intro j c' hj
    obtain ⟨hji, hj⟩ := hof j c' hj
    have hcc : c' ≠ c := fun e => hji (h.own j i c (e ▸ hj) hi)
    rw [hconns c' hcc]
    exact h.conn j c' hj
  · intro j j' c' hj hj'
    exact h.own j j' c' (hof j c' hj).2 (hof j' c' hj').2
  · intro k c' n hk
    obtain ⟨hcc, hk⟩ := hholder k c' n hk
    obtain ⟨hn, j, hj, hjk⟩ := h.held k c' n hk
    have hji : j ≠ i := fun e => hcc (by rw [e, hi] at hj; exact (Option.some.inj hj).symm)
    exact ⟨hn, j, by rw [Function.update_of_ne hji]; exact hj, by rw [Function.update_of_ne hji]; exact hjk⟩

end

end

/-! ### The server's locks -/

theorem holder_endSession {g : Sessions} {c c' n : Nat} {k : Int}
    (h : (g.endSession c).holder k = some (.session c' n)) : c' ≠ c ∧ g.holder k = some (.session c' n) := by
  simp only [Sessions.endSession] at h
  split at h
  · rename_i d m hk
    split at h
    · cases h
    · cases h
      rename_i hne
      exact ⟨hne, hk⟩
  · rename_i hno
    exact absurd h (hno c' n)

theorem conns_endSession {g : Sessions} {c c' : Nat} (h : c' ≠ c) : (g.endSession c).conns c' = g.conns c' :=
  Function.update_of_ne h _ _

section
variable {ι : Type} [DecidableEq ι] {loc : ι → Owning} {g : Sessions} {i : ι} {c : Nat} {k : Int} {l : Owning}

theorem SessionInv.lock (h : SessionInv loc g) (hi : (loc i).conn = some c) (hkey : (loc i).key = none)
    (hcan : g.canLock c k = true) (hl : l.conn = some c) (hlk : l.key = some k) :
    SessionInv (Function.update loc i l) (g.lock c k) := by
  -- the session counts up only a key that it has, and this one has none
  have hnone : g.holder k = none := by
    unfold Sessions.canLock at hcan
    split at hcan
    · assumption
    · rename_i d m hk
      have hd : d = c := by simpa using hcan
      exact absurd (hd ▸ hk) (h.keyless hi hkey k m)
    · cases hcan
  have hother : ∀ j k', (loc j).key = some k' → j ≠ i := fun j k' hj e => by rw [e, hkey] at hj; cases hj
  have hconn := update_field Owning.conn (hl.trans hi.symm)
  refine ⟨?_, ?_, ?_⟩
  · intro j c' hj
    rw [hconn] at hj
    exact h.conn j c' hj
  · intro j j' c' hj hj'
    rw [hconn] at hj hj'
    exact h.own j j' c' hj hj'
  · intro k' c' n hk
    by_cases hkk : k' = k
    · simp only [Sessions.lock, hnone, hkk, Function.update_self] at hk
      cases hk
      exact ⟨rfl, i, by rw [Function.update_self]; exact hl, by rw [Function.update_self, hlk, hkk]⟩
    · simp only [Sessions.lock, Function.update_of_ne hkk] at hk
      obtain ⟨hn, j, hj, hjk⟩ := h.held k' c' n hk
      have hji := hother j k' hjk
      exact ⟨hn, j, by rw [Function.update_of_ne hji]; exact hj, by rw [Function.update_of_ne hji]; exact hjk⟩

theorem SessionInv.unlock (h : SessionInv loc g) (hi : (loc i).conn = some c) (hkey : (loc i).key = some k)
    (hl : l.conn = some c) : SessionInv (Function.update loc i l) (g.unlock c k) := by
  have hconns : (g.unlock c k).conns = g.conns := by
    unfold Sessions.unlock
    split
    · split <;> rfl
    · rfl
  have hconn := update_field Owning.conn (hl.trans hi.symm)
  have hholder : ∀ k' c' n, (g.unlock c k).holder k' = some (.session c' n) →
      c' ≠ c ∧ g.holder k' = some (.session c' n) := by
    have hmine : ∀ k' n, g.holder k' = some (.session c n) → k' = k ∧ n = 1 := by
      intro k' n hk'
      obtain ⟨hn, j, hj, hjk⟩ := h.held k' c n hk'
      rw [h.own j i c hj hi, hkey] at hjk
      exact ⟨(Option.some.inj hjk).symm, hn⟩
    intro k' c' n hk'
    by_cases hkk : k' = k
    · subst hkk
      cases hg : g.holder k' with
      | none => simp [Sessions.unlock, hg] at hk'
      | some holder =>
        cases holder with
        | foreign => simp [Sessions.unlock, hg] at hk'
        | session d m =>
          by_cases hd : d = c
          · subst hd
            have hm : m = 1 := (hmine k' m hg).2
            simp [Sessions.unlock, hg, hm] at hk'
          · simp only [Sessions.unlock, hg, if_neg hd, Option.some.injEq, Holder.session.injEq] at hk'
            rw [← hk'.1, ← hk'.2]
            exact ⟨hd, rfl⟩
    · have hsame : (g.unlock c k).holder k' = g.holder k' := by
        unfold Sessions.unlock
        split
        · split
          · exact Function.update_of_ne hkk _ _
          · rfl
        · rfl
      rw [hsame] at hk'
      refine ⟨?_, hk'⟩
      intro e
      exact hkk (hmine k' n (e ▸ hk')).1
  refine ⟨?_, ?_, ?_⟩
  · intro j c' hj
    rw [hconn] at hj
    rw [hconns]
    exact h.conn j c' hj
  · intro j j' c' hj hj'
    rw [hconn] at hj hj'
    exact h.own j j' c' hj hj'
  · intro k' c' n hk'
    obtain ⟨hne, hk'⟩ := hholder k' c' n hk'
    obtain ⟨hn, j, hj, hjk⟩ := h.held k' c' n hk'
    have hji : j ≠ i := fun e => hne (by rw [e, hi] at hj; exact (Option.some.inj hj).symm)
    exact ⟨hn, j, by rw [Function.update_of_ne hji]; exact hj, by rw [Function.update_of_ne hji]; exact hjk⟩

end

/-! ## Runs -/

section
variable {C : Sig} {ι α : Type} [DecidableEq ι] {st : Storage} {s : String} {loc : ι → Owning} {g : Sessions} {i : ι}

theorem SessionInv.dropPlain {c : Nat} {l : Owning} (h : SessionInv loc g) (hi : (loc i).conn = some c)
    (hk : (loc i).key = none) (hl : l.conn = none) :
    SessionInv (Function.update loc i l) (SessionOp.dropPlain (loc i) g) := by
  rw [SessionOp.dropPlain, hi]
  refine h.giveUp hi hl (fun c' hc => Function.update_of_ne hc _ _) fun k c' n hh => ⟨?_, hh⟩
  intro e
  exact h.keyless hi hk k n (e ▸ hh)

theorem SessionInv.dropDetached {c : Nat} {l : Owning} (h : SessionInv loc g) (hi : (loc i).conn = some c)
    (hl : l.conn = none) : SessionInv (Function.update loc i l) (SessionOp.dropDetached (loc i) g) := by
  rw [SessionOp.dropDetached, hi]
  exact h.giveUp hi hl (fun c' hc => conns_endSession hc) fun k c' n hh => holder_endSession hh

theorem canAcquire_ne {c : Nat} (h : SessionOp.canAcquire st g c = true) : g.conns c ≠ .guarding := by
  intro e
  rw [SessionOp.canAcquire, e] at h
  cases h

theorem sessionInv_answer (h : SessionInv loc g) (o : SessionOp C) (a : (SessionSig C).Ans o)
    (hΦ : Guarding st s o (loc i)) (hcan : o.can st (loc i) g a = true) :
    SessionInv (Function.update loc i (o.loc a (loc i))) (o.sh a (loc i) g) := by
  cases o with
  | lockLocal s' =>
    have hg : SessionInv loc ((SessionOp.lockLocal (C := C) s').sh a (loc i) g) := h.shared (fun _ h => h) fun _ _ _ h => h
    exact hg.same rfl rfl
  | unlockLocal s' =>
    have hg : SessionInv loc ((SessionOp.unlockLocal (C := C) s').sh a (loc i) g) :=
      h.shared (fun _ h => h) fun _ _ _ h => h
    exact hg.same rfl rfl
  | acquire =>
    cases a with
    | error err => exact h.same rfl rfl
    | ok c => exact h.acquire (by rw [hΦ]) (canAcquire_ne hcan) rfl rfl rfl
  | statement q =>
    cases q with
    | lock k =>
      cases a with
      | error err => exact h.same rfl rfl
      | ok _ =>
        obtain ⟨-, c, hl⟩ := hΦ
        have hi : (loc i).conn = some c := by rw [hl]
        simp only [SessionOp.sh, hi]
        simp only [SessionOp.can, hi, Option.all_some] at hcan
        exact h.lock hi (by rw [hl]) hcan hi rfl
    | unlock k =>
      cases a with
      | error err => exact h.same rfl rfl
      | ok _ =>
        obtain ⟨hk, c, hl⟩ := hΦ
        have hi : (loc i).conn = some c := by rw [hl]
        simp only [SessionOp.sh, hi]
        exact h.unlock hi (by rw [hl, hk]) hi
  | response q answer => exact h.same rfl rfl
  | intoGuard => exact h.same rfl rfl
  | takeFromGuard => exact h.same rfl rfl
  | dropConnection =>
    obtain ⟨c, hl⟩ := hΦ
    exact h.dropPlain (c := c) (by rw [hl]) (by rw [hl]) rfl
  | detach =>
    obtain ⟨c, hl⟩ := hΦ
    exact h.dropDetached (c := c) (by rw [hl]) rfl
  | close => exact h.same rfl rfl
  | closure o => exact h.same rfl rfl
  | other o => exact absurd hΦ id

/-- The calls at which the connection is a plain one and its session has the lock. -/
def SessionOp.stillLocked : SessionOp C → Bool
  | .response (.lock _) (.ok _) | .statement (.unlock _) | .response (.unlock _) (.error _) => true
  | _ => false

omit [DecidableEq ι] in
/-- Giving back the local lock changes no session. -/
theorem SessionInv.dropLock {l : Owning}
    (h : SessionInv loc (if l.inGuard then SessionOp.dropDetached l g else SessionOp.dropPlain l g)) :
    SessionInv loc (SessionOp.dropSh l g) := by
  unfold SessionOp.dropSh
  cases l.lock with
  | none => exact h
  | some s => exact h.shared (fun _ h => h) fun _ _ _ h => h

theorem sessionInv_drop (h : SessionInv loc g) (o : SessionOp C) (hΦ : Guarding st s o (loc i))
    (hawait : o.isAwait = true) (hok : o.stillLocked = false) :
    SessionInv (Function.update loc i {}) (SessionOp.dropSh (loc i) g) := by
  have hempty : (loc i).conn = none → (loc i).key = none → (loc i).inGuard = false →
      SessionInv (Function.update loc i {}) (SessionOp.dropSh (loc i) g) := by
    intro hc hk hg
    refine SessionInv.dropLock ?_
    rw [if_neg (by simp [hg]), SessionOp.dropPlain, hc]
    exact h.same hc.symm hk.symm
  have hplain : ∀ c, loc i = { lock := some s, conn := some c } →
      SessionInv (Function.update loc i {}) (SessionOp.dropSh (loc i) g) := by
    intro c hl
    refine SessionInv.dropLock ?_
    rw [if_neg (by simp [hl])]
    exact h.dropPlain (c := c) (by rw [hl]) (by rw [hl]) rfl
  cases o with
  | lockLocal s' =>
    rw [hΦ.2] at hempty
    exact hΦ.2 ▸ hempty rfl rfl rfl
  | acquire => exact hempty (by rw [hΦ]) (by rw [hΦ]) (by rw [hΦ])
  | close => exact hempty (by rw [hΦ]) (by rw [hΦ]) (by rw [hΦ])
  | statement q =>
    cases q with
    | lock k => exact hplain _ hΦ.2.choose_spec
    | unlock k => cases hok
  | response q answer =>
    cases q <;> cases answer
    · exact hplain _ hΦ.choose_spec
    · cases hok
    · cases hok
    · exact hplain _ hΦ.choose_spec
  | closure o =>
    rcases hΦ with hl | ⟨c, hl⟩
    · exact hempty (by rw [hl]) (by rw [hl]) (by rw [hl])
    · refine SessionInv.dropLock ?_
      rw [if_pos (by simp [hl])]
      exact h.dropDetached (c := c) (by rw [hl]) rfl
  | other o => exact absurd hΦ id
  | _ => cases hawait

omit [DecidableEq ι] in
theorem sessionInv_env (h : SessionInv loc g) (e : PoolEvent) (hcan : e.can st g = true) :
    SessionInv loc (e.sh g) := by
  have hmove : ∀ {c s}, g.conns c ≠ .guarding → ∀ c', g.conns c' = .guarding →
      Function.update g.conns c s c' = .guarding := by
    intro c s hc c' hc'
    have hne : c' ≠ c := fun e => hc (e ▸ hc')
    rw [Function.update_of_ne hne]
    exact hc'
  cases e with
  | lend c => exact h.shared (hmove (canAcquire_ne hcan)) fun _ _ _ h => h
  | giveBack c =>
    have hc : g.conns c = .lent := of_decide_eq_true hcan
    exact h.shared (hmove (by rw [hc]; simp)) fun _ _ _ h => h
  | close c =>
    have hc : g.conns c = .idle := of_decide_eq_true hcan
    exact h.shared (hmove (by rw [hc]; simp)) fun _ _ _ h => (holder_endSession h).2
  | foreignLock k =>
    refine h.shared (fun _ h => h) fun k' c n hk => ?_
    by_cases hkk : k' = k
    · simp [PoolEvent.sh, hkk] at hk
    · simpa [PoolEvent.sh, Function.update_of_ne hkk] using hk
  | foreignUnlock k =>
    refine h.shared (fun _ h => h) fun k' c n hk => ?_
    by_cases hkk : k' = k
    · simp [PoolEvent.sh, hkk] at hk
    · simpa [PoolEvent.sh, Function.update_of_ne hkk] using hk

/-- A future is dropped at no call at which a plain connection has the lock. -/
def DropsUnlocked (c : SessionConf C ι α) : Label (SessionSig C) ι PoolEvent → Prop
  | .drop i => ∀ o k, c.prog i = some (.call o k) → o.stillLocked = false
  | _ => True

theorem sessionInv_reach {scope : ι → String} {f : ι → Prog C (Result α)} {c : SessionConf C ι α}
    (h : SessionInv (fun _ : ι => {}) g)
    (hr : Reach (sessionWorld C ι st) DropsUnlocked (sessionStart st scope f g) c) : SessionInv c.loc c.sh := by
  have key := hr.invariant
    (J := fun c => Typed (sessionWorld C ι st) (fun i => Guarding st (scope i)) (fun _ _ l => l = {}) c ∧
      SessionInv c.loc c.sh) ⟨sessionStart_typed scope f g, h⟩ ?_
  · exact key.2
  · intro c l c' ⟨ht, hinv⟩ hok hs
    refine ⟨ht.step hs, ?_⟩
    cases hs with
    | answer hp hc => exact sessionInv_answer hinv _ _ (ht _ _ hp).1 hc
    | drop hp hd => exact sessionInv_drop hinv _ (ht _ _ hp).1 hd (hok _ _ hp)
    | env he => exact sessionInv_env hinv _ he

/-- At the start no session of the pool has an advisory lock and none is guarding. -/
theorem pooled_unlocked (scope : ι → String) (f : ι → Prog C (Result α)) {c : SessionConf C ι α}
    (hfree : ∀ k c n, g.holder k ≠ some (.session c n))
    (hr : Reach (sessionWorld C ι st) DropsUnlocked (sessionStart st scope f g) c) {conn : Nat}
    (hidle : c.sh.conns conn = .idle) (k : Int) (n : Nat) : c.sh.holder k ≠ some (.session conn n) := by
  have hstart : SessionInv (fun _ : ι => ({} : Owning)) g := by
    refine ⟨?_, ?_, fun k c n hk => absurd hk (hfree k c n)⟩
    · intro i c hi; cases hi
    · intro i j c hi; cases hi
  exact (sessionInv_reach hstart hr).unlocked (by rw [hidle]; simp) k n

end

/-! ## Dropped futures -/

/-- A pool of one connection and the lock of `platform` at key 7. -/
def onePool : Storage := ⟨.postgres, 1, fun _ => 7⟩

def onePoolStart (f : Bool → Prog StoreSig (Result Unit)) : SessionConf StoreSig Bool Unit :=
  sessionStart onePool (fun _ => "platform") f ⟨fun _ => false, fun _ => .unopened, 0, fun _ => none⟩

def succeed : (o : SessionOp StoreSig) → Sessions → Option ((SessionSig StoreSig).Ans o)
  | .acquire, _ => some (.ok 0)
  | .statement _, _ => some (.ok ())
  | .lockLocal _, _ | .unlockLocal _, _ | .response _ _, _ | .intoGuard, _ | .takeFromGuard, _ => some ()
  | .dropConnection, _ | .detach, _ | .close, _ => some ()
  | .closure o, _ => some (o.answer {})
  | .other o, _ => some (o.answer {})

instance {C : Sig} {ι α : Type} (c : SessionConf C ι α) (l : Label (SessionSig C) ι PoolEvent) :
    Decidable (DropsUnlocked c l) :=
  match l with
  | .answer .. => .isTrue trivial
  | .env _ => .isTrue trivial
  | .drop i =>
    match hp : c.prog i with
    | some (.call o k) =>
      decidable_of_iff (o.stillLocked = false)
        ⟨fun h o' k' hp' => by rw [hp] at hp'; cases hp'; exact h, fun h => h o k hp⟩
    | some (.done _) => .isTrue fun o k hp' => by rw [hp] at hp'; cases hp'
    | none => .isTrue fun o k hp' => by rw [hp] at hp'; cases hp'

/-- A future dropped while it waits for the lock, and an admission that runs through. -/
theorem pooled_unlocked_after_drop : ∃ c, Reach (sessionWorld StoreSig Bool onePool) DropsUnlocked
    (onePoolStart fun _ => Prog.op (S := StoreSig) .now >>= fun _ => pure (.ok ())) c ∧
      c.sh.conns 0 = .idle ∧ ∀ k n, c.sh.holder k ≠ some (.session 0 n) := by
  have hrun : ∃ c, Reach (sessionWorld StoreSig Bool onePool) DropsUnlocked
      (onePoolStart fun _ => Prog.op (S := StoreSig) .now >>= fun _ => pure (.ok ())) c ∧ c.sh.conns 0 = .idle :=
    Conf.exists_reach ([.answer true succeed, .answer true succeed, .drop true] ++
      List.replicate 10 (.answer false succeed)) (by decide)
  obtain ⟨c, hr, hidle⟩ := hrun
  exact ⟨c, hr, hidle, pooled_unlocked _ _ (fun k c n hk => by cases hk) hr hidle⟩

/-- The lock query has been executed, its answer is on its way, and the client goes
away: the connection is idle and its session has the lock. -/
theorem dropped_lock_is_pooled : ∃ c, Reach (sessionWorld StoreSig Bool onePool) (fun _ _ => True)
    (onePoolStart fun _ => pure (.ok ())) c ∧ c.sh.conns 0 = .idle ∧ c.sh.holder 7 = some (.session 0 1) :=
  Conf.exists_reach [.answer true succeed, .answer true succeed, .answer true succeed, .drop true] (by decide)

end Llmctl
