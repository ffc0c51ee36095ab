import Llmctl.Async.World
import Llmctl.Async.Replay

/-!
# Operations one after the other

An object behind a lock runs one operation at a time, to its end or to a
suspension point where its future is dropped. The object is the local state of
the one process there is; between two operations anybody may start the next one.
-/

namespace Async

variable {S : Sig} {α K L G E : Type}

inductive SerialLabel (S : Sig) (E K : Type) where
  | step (l : Label S Unit E)
  | start (k : K)

def Conf.Idle (c : Conf S α Unit L G) : Prop := ∀ o k, c.prog () ≠ some (.call o k)

/-- `enter` is what the object notes of the surroundings when an operation starts. -/
inductive SerialStep (W : World S Unit L G E) (prog : K → Prog S α) (enter : K → G → L → L) :
    Conf S α Unit L G → SerialLabel S E K → Conf S α Unit L G → Prop where
  | step {c c' : Conf S α Unit L G} {l : Label S Unit E} (hs : Step W c l c') : SerialStep W prog enter c (.step l) c'
  | start {c : Conf S α Unit L G} {k : K} (hidle : c.Idle) :
      SerialStep W prog enter c (.start k)
        { prog := fun _ => some (prog k), loc := fun _ => enter k c.sh (c.loc ()), sh := c.sh }

inductive SerialReach (W : World S Unit L G E) (prog : K → Prog S α) (enter : K → G → L → L)
    (ok : Conf S α Unit L G → SerialLabel S E K → Prop) (c₀ : Conf S α Unit L G) : Conf S α Unit L G → Prop where
  | refl : SerialReach W prog enter ok c₀ c₀
  | step {c c' : Conf S α Unit L G} {l : SerialLabel S E K} (h : SerialReach W prog enter ok c₀ c) (hok : ok c l)
      (hs : SerialStep W prog enter c l c') : SerialReach W prog enter ok c₀ c'

/-- The runs of a world whose answers come only where `guard` allows the call. -/
def World.restrict {ι : Type} (W : World S ι L G E) (guard : S.Op → L → Bool) : World S ι L G E :=
  { W with can := fun i o a l g => W.can i o a l g && guard o l }

def serialStart (l : L) (g : G) : Conf S α Unit L G := ⟨fun _ => none, fun _ => l, g⟩

section
variable {W : World S Unit L G E} {prog : K → Prog S α} {enter : K → G → L → L}
  {ok : Conf S α Unit L G → SerialLabel S E K → Prop} {J : L → Prop}
  {Φ : S.Op → L → Prop} {Ψ : α → L → Prop} {l₀ : L} {g₀ : G} {c : Conf S α Unit L G}

/-- `J` holds while nothing runs, and the rest of a running operation keeps its typestate. -/
def Kept (W : World S Unit L G E) (J : L → Prop) (Φ : S.Op → L → Prop) (Ψ : α → L → Prop)
    (c : Conf S α Unit L G) : Prop :=
  match c.prog () with
  | none => J (c.loc ())
  | some p => Always W () Φ Ψ p (c.loc ())

theorem Kept.of_idle (h : Kept W J Φ Ψ c) (hdone : ∀ a l, Ψ a l → J l) (hidle : c.Idle) : J (c.loc ()) := by
  unfold Kept at h
  split at h
  · exact h
  · rename_i p hp
    cases p with
    | done a => exact hdone a _ h
    | call o k => exact absurd hp (hidle o k)

theorem Kept.of_call (h : Kept W J Φ Ψ c) {o : S.Op} {k : S.Ans o → Prog S α} (hp : c.prog () = some (.call o k)) :
    Always W () Φ Ψ (.call o k) (c.loc ()) := by
  unfold Kept at h
  rw [hp] at h
  exact h

/-- If every operation keeps `J` to its end and wherever it can be dropped, `J` holds
between operations of every run. -/
theorem SerialReach.kept (guard : S.Op → L → Bool) (hJ : J l₀) (hok : ∀ c o a, ok c (.step (.answer () o a)) → guard o (c.loc ()) = true)
    (hprog : ∀ k g l, J l → Always (W.restrict guard) () Φ Ψ (prog k) (enter k g l)) (hdone : ∀ a l, Ψ a l → J l)
    (hdrop : ∀ o l, Φ o l → W.canDrop () o = true → J (W.dropLoc () o l))
    (hr : SerialReach W prog enter ok (serialStart l₀ g₀) c) : Kept (W.restrict guard) J Φ Ψ c := by
  induction hr with
  | refl => exact hJ
  | @step c c' l _ hokl hs ih =>
    cases hs with
    | step hs =>
      cases hs with
      | @answer i o k a hp hc =>
        have hall := ih.of_call hp
        simp only [Kept, Function.update_self]
        exact hall.2 a c.sh (by simp [World.restrict, hc, hok _ _ _ hokl])
      | @drop i o k hp hd =>
        have hall := ih.of_call hp
        simp only [Kept, Function.update_self]
        exact hdrop o _ hall.1 hd
      | env he => exact ih
    | start hidle =>
      simp only [Kept]
      exact hprog _ _ _ (ih.of_idle hdone hidle)

end

/-! ## Scripts -/

/-- `answer` looks at the object to choose the answer to the pending call. -/
inductive SerialChoice (S : Sig) (L E K : Type) where
  | answer (pick : (o : S.Op) → L → S.Ans o)
  | drop
  | env (e : E)
  | start (k : K)

section
variable (W : World S Unit L G E) (prog : K → Prog S α) (enter : K → G → L → L)
  (ok : Conf S α Unit L G → SerialLabel S E K → Prop) [∀ c l, Decidable (ok c l)]

def Conf.serialNext (c : Conf S α Unit L G) : SerialChoice S L E K → Option (Conf S α Unit L G)
  | .answer pick =>
    match c.prog () with
    | some (.call o k) =>
      let a := pick o (c.loc ())
      if W.can () o a (c.loc ()) c.sh = true ∧ ok c (.step (.answer () o a)) then
        some { prog := Function.update c.prog () (some (k a))
               loc := Function.update c.loc () (W.loc () o a (c.loc ()))
               sh := W.sh () o a (c.loc ()) c.sh }
      else none
    | _ => none
  | .drop =>
    match c.prog () with
    | some (.call o _) =>
      if W.canDrop () o = true ∧ ok c (.step (.drop ())) then
        some { prog := Function.update c.prog () none
               loc := Function.update c.loc () (W.dropLoc () o (c.loc ()))
               sh := W.dropSh () o (c.loc ()) c.sh }
      else none
    | _ => none
  | .env e =>
    if W.canEnv e c.sh = true ∧ ok c (.step (.env e)) then some { c with sh := W.env e c.sh } else none
  | .start k =>
    match c.prog () with
    | some (.call _ _) => none
    | _ =>
      if ok c (.start k) then
        some { prog := fun _ => some (prog k), loc := fun _ => enter k c.sh (c.loc ()), sh := c.sh }
      else none

def Conf.serialRun (c : Conf S α Unit L G) : List (SerialChoice S L E K) → Option (Conf S α Unit L G)
  | [] => some c
  | x :: xs => (c.serialNext W prog enter ok x).bind fun c => c.serialRun xs

variable {W prog enter ok}

theorem Conf.serialNext_step {c c' : Conf S α Unit L G} {x : SerialChoice S L E K}
    (h : c.serialNext W prog enter ok x = some c') : ∃ l, ok c l ∧ SerialStep W prog enter c l c' := by
  cases x with
  | answer pick =>
    simp only [Conf.serialNext] at h
    split at h
    · split at h
      · cases h; rename_i hp hc; exact ⟨_, hc.2, .step (.answer hp hc.1)⟩
      · cases h
    · cases h
  | drop =>
    simp only [Conf.serialNext] at h
    split at h
    · split at h
      · cases h; rename_i hp hc; exact ⟨_, hc.2, .step (.drop hp hc.1)⟩
      · cases h
    · cases h
  | env e =>
    simp only [Conf.serialNext] at h
    split at h
    · cases h; rename_i hc; exact ⟨_, hc.2, .step (.env hc.1)⟩
    · cases h
  | start k =>
    simp only [Conf.serialNext] at h
    split at h
    · cases h
    · split at h
      · cases h
        rename_i hidle hc
        exact ⟨_, hc, .start fun o k' hp => hidle o k' hp⟩
      · cases h

theorem Conf.serialRun_reach {c₀ : Conf S α Unit L G} : ∀ {xs : List (SerialChoice S L E K)} {c c' : Conf S α Unit L G},
    SerialReach W prog enter ok c₀ c → c.serialRun W prog enter ok xs = some c' → SerialReach W prog enter ok c₀ c'
  | [], _, _, hr, h => by cases h; exact hr
  | x :: xs, c, c', hr, h => by
    obtain ⟨d, hd, h⟩ := Option.bind_eq_some_iff.mp h
    obtain ⟨l, hok, hs⟩ := serialNext_step hd
    exact serialRun_reach (hr.step hok hs) h

theorem Conf.exists_serialReach (xs : List (SerialChoice S L E K)) {c : Conf S α Unit L G}
    {P : Conf S α Unit L G → Prop} [DecidablePred P]
    (h : (c.serialRun W prog enter ok xs).any (fun c => decide (P c)) = true) :
    ∃ c', SerialReach W prog enter ok c c' ∧ P c' := by
  obtain ⟨c', hc', hP⟩ := Option.any_eq_true _ _ |>.mp h
  exact ⟨c', serialRun_reach .refl hc', of_decide_eq_true hP⟩

end

/-! ## Results of one operation -/

/-- `p` can return `a` and leave the object as `l'`. -/
inductive Outcome (W : World S Unit L G E) : Prog S α → L → α → L → Prop where
  | done {a : α} {l : L} : Outcome W (.done a) l a l
  | call {o : S.Op} {k : S.Ans o → Prog S α} {a : S.Ans o} {b : α} {l l' : L} {g : G} (hc : W.can () o a l g = true)
      (h : Outcome W (k a) (W.loc () o a l) b l') : Outcome W (.call o k) l b l'

section
variable {W : World S Unit L G E} {Φ : S.Op → L → Prop} {Ψ : α → L → Prop} {p : Prog S α}

theorem Always.outcome {l : L} (h : Always W () Φ Ψ p l) {a : α} {l' : L} (ho : Outcome W p l a l') : Ψ a l' := by
  induction ho with
  | done => exact h
  | call hc _ ih => exact ih (h.2 _ _ hc)

/-- What comes of `p` when `pick` answers its calls. -/
theorem Outcome.eval {pick : (o : S.Op) → L → S.Ans o} {g : G} (hpick : ∀ o l, W.can () o (pick o l) l g = true)
    (p : Prog S α) : ∀ l, Outcome W p l (p.eval pick (W.loc ()) l).1 (p.eval pick (W.loc ()) l).2 := by
  induction p with
  | done a => exact fun _ => .done
  | call o k ih => exact fun l => .call (hpick o l) (ih (pick o l) _)

theorem Outcome.bind {β : Type} {f : α → Prog S β} {l l' l'' : L} {a : α} {b : β} (ho : Outcome W p l a l')
    (hf : Outcome W (f a) l' b l'') : Outcome W (p >>= f) l b l'' := by
  induction ho with
  | done => exact hf
  | call hc _ ih => exact .call hc (ih hf)

end

end Async
