import Llmctl.Async.Prog

/-!
# Runs of concurrent processes

A `World` says what each operation does to the local state of the process that
calls it and to the state all processes share. A run interleaves answers to the
processes' calls, drops of their futures and events of the environment.
-/

namespace Async

structure World (S : Sig) (ι L G E : Type) where
  /-- `a` may come now as the answer to `i`'s call of `o`. -/
  can : ι → (o : S.Op) → S.Ans o → L → G → Bool
  loc : ι → (o : S.Op) → S.Ans o → L → L
  sh : ι → (o : S.Op) → S.Ans o → L → G → G
  /-- `o` is a suspension point: `i`'s future that awaits it can be dropped there. -/
  canDrop : ι → S.Op → Bool
  dropLoc : ι → S.Op → L → L
  dropSh : ι → S.Op → L → G → G
  canEnv : E → G → Bool
  env : E → G → G

/-- The state of a run; a dropped process has no program left. -/
structure Conf (S : Sig) (α ι L G : Type) where
  prog : ι → Option (Prog S α)
  loc : ι → L
  sh : G

inductive Label (S : Sig) (ι E : Type) where
  | answer (i : ι) (o : S.Op) (a : S.Ans o)
  | drop (i : ι)
  | env (e : E)

variable {S : Sig} {α ι L G E : Type} [DecidableEq ι]

def Conf.pending (c : Conf S α ι L G) (i : ι) : Option S.Op :=
  match c.prog i with
  | some (.call o _) => some o
  | _ => none

def Conf.result (c : Conf S α ι L G) (i : ι) : Option α :=
  match c.prog i with
  | some (.done a) => some a
  | _ => none

omit [DecidableEq ι] in
theorem Conf.prog_of_result {c : Conf S α ι L G} {i : ι} {a : α} (h : c.result i = some a) :
    c.prog i = some (.done a) := by
  unfold Conf.result at h
  split at h
  · rename_i a' hp
    rw [hp, Option.some.inj h]
  · cases h

/-- `i` has returned or was dropped. -/
def Conf.over (c : Conf S α ι L G) (i : ι) : Bool := (c.pending i).isNone

/-! ## Steps and runs -/

inductive Step (W : World S ι L G E) : Conf S α ι L G → Label S ι E → Conf S α ι L G → Prop where
  | answer {c : Conf S α ι L G} {i : ι} {o : S.Op} {k : S.Ans o → Prog S α} {a : S.Ans o}
      (hp : c.prog i = some (.call o k)) (hc : W.can i o a (c.loc i) c.sh = true) :
      Step W c (.answer i o a)
        { prog := Function.update c.prog i (some (k a))
          loc := Function.update c.loc i (W.loc i o a (c.loc i))
          sh := W.sh i o a (c.loc i) c.sh }
  | drop {c : Conf S α ι L G} {i : ι} {o : S.Op} {k : S.Ans o → Prog S α}
      (hp : c.prog i = some (.call o k)) (hd : W.canDrop i o = true) :
      Step W c (.drop i)
        { prog := Function.update c.prog i none
          loc := Function.update c.loc i (W.dropLoc i o (c.loc i))
          sh := W.dropSh i o (c.loc i) c.sh }
  | env {c : Conf S α ι L G} {e : E} (he : W.canEnv e c.sh = true) :
      Step W c (.env e) { c with sh := W.env e c.sh }

/-- The configurations that runs from `c₀` reach whose steps all meet `ok`. -/
inductive Reach (W : World S ι L G E) (ok : Conf S α ι L G → Label S ι E → Prop)
    (c₀ : Conf S α ι L G) : Conf S α ι L G → Prop where
  | refl : Reach W ok c₀ c₀
  | step {c c' : Conf S α ι L G} {l : Label S ι E} (h : Reach W ok c₀ c) (hok : ok c l)
      (hs : Step W c l c') : Reach W ok c₀ c'

section
variable {W : World S ι L G E} {ok ok' : Conf S α ι L G → Label S ι E → Prop} {c₀ c c' : Conf S α ι L G}

theorem Reach.trans (h : Reach W ok c₀ c) (h' : Reach W ok c c') : Reach W ok c₀ c' := by
  induction h' with
  | refl => exact h
  | step _ hok hs ih => exact .step ih hok hs

theorem Reach.mono (hmono : ∀ c l, ok c l → ok' c l) (h : Reach W ok c₀ c) : Reach W ok' c₀ c := by
  induction h with
  | refl => exact .refl
  | step _ hok hs ih => exact .step ih (hmono _ _ hok) hs

/-- What holds at the start and is kept by every step holds in every state reached. -/
theorem Reach.invariant {J : Conf S α ι L G → Prop} (h₀ : J c₀)
    (hstep : ∀ c l c', J c → ok c l → Step W c l c' → J c') (h : Reach W ok c₀ c) : J c := by
  induction h with
  | refl => exact h₀
  | step _ hok hs ih => exact hstep _ _ _ ih hok hs

end

/-! ## Typestates -/

/-- Along every path of a program, from local state `l` on, each call meets `Φ`
and each return meets `Ψ`. -/
def Always (W : World S ι L G E) (i : ι) (Φ : S.Op → L → Prop) (Ψ : α → L → Prop) :
    Prog S α → L → Prop
  | .done a, l => Ψ a l
  | .call o k, l => Φ o l ∧ ∀ a g, W.can i o a l g = true → Always W i Φ Ψ (k a) (W.loc i o a l)

section
variable {β : Type} {W : World S ι L G E} {i : ι} {Φ Φ' : S.Op → L → Prop} {Ψ Ψ' : α → L → Prop}

omit [DecidableEq ι] in
@[simp] theorem always_done (a : α) (l : L) : Always W i Φ Ψ (.done a) l ↔ Ψ a l := Iff.rfl

omit [DecidableEq ι] in
@[simp] theorem always_call (o : S.Op) (k : S.Ans o → Prog S α) (l : L) :
    Always W i Φ Ψ (.call o k) l ↔
      Φ o l ∧ ∀ a g, W.can i o a l g = true → Always W i Φ Ψ (k a) (W.loc i o a l) := Iff.rfl

omit [DecidableEq ι] in
theorem Always.op {o : S.Op} {f : S.Ans o → Prog S α} {l : L} (hΦ : Φ o l)
    (h : ∀ a g, W.can i o a l g = true → Always W i Φ Ψ (f a) (W.loc i o a l)) :
    Always W i Φ Ψ (Prog.op o >>= f) l := ⟨hΦ, h⟩

omit [DecidableEq ι] in
theorem Always.mono (hΦ : ∀ o l, Φ o l → Φ' o l) (hΨ : ∀ a l, Ψ a l → Ψ' a l) {p : Prog S α} :
    ∀ {l : L}, Always W i Φ Ψ p l → Always W i Φ' Ψ' p l := by
  induction p with
  | done a => exact fun h => hΨ _ _ h
  | call o k ih => exact fun h => ⟨hΦ _ _ h.1, fun a g hc => ih a (h.2 a g hc)⟩

omit [DecidableEq ι] in
theorem Always.with_all {Q : S.Op → Prop} {p : Prog S α} (hp : p.All Q) :
    ∀ {l : L}, Always W i Φ Ψ p l → Always W i (fun o l => Q o ∧ Φ o l) Ψ p l := by
  induction p with
  | done a => exact id
  | call o k ih => exact fun h => ⟨⟨hp.1, h.1⟩, fun a g hc => ih a (hp.2 a) (h.2 a g hc)⟩

omit [DecidableEq ι] in
/-- The rule of sequence: the first program's returns meet what the rest needs. -/
theorem Always.bind {p : Prog S β} {f : β → Prog S α} :
    ∀ {l : L}, Always W i Φ (fun b l => Always W i Φ Ψ (f b) l) p l → Always W i Φ Ψ (p >>= f) l := by
  induction p with
  | done b => exact id
  | call o k ih => exact fun h => ⟨h.1, fun a g hc => ih a (h.2 a g hc)⟩

omit [DecidableEq ι] in
theorem Always.seq {Q : β → L → Prop} {p : Prog S β} {f : β → Prog S α} {l : L} (h : Always W i Φ Q p l)
    (hf : ∀ b l', Q b l' → Always W i Φ Ψ (f b) l') : Always W i Φ Ψ (p >>= f) l :=
  Always.bind (h.mono (fun _ _ hΦ => hΦ) hf)

omit [DecidableEq ι] in
/-- What a program leaves does not depend on what is made of its result. -/
theorem Always.bind_pure {l₀ : L} {P : L → Prop} {p : Prog S β} (h : Always W i Φ (fun _ l => P l) p l₀) (a : α) :
    Always W i Φ (fun _ l => P l) (p >>= fun _ => pure a) l₀ :=
  Always.bind (h.mono (fun _ _ hΦ => hΦ) fun _ _ hP => hP)

omit [DecidableEq ι] in
/-- The typestate of a program carries over to its lift into a world that simulates
the program's own along `Rel`. -/
theorem Always.lift {T : Sig} {κ L' G' E' : Type} {V : World T κ L' G' E'} {j : κ} {f : S.Op → T.Op}
    {g : (o : S.Op) → T.Ans (f o) → S.Ans o} (Rel : L → L' → Prop) {Φ' : T.Op → L' → Prop} {Ψ' : α → L' → Prop}
    (hcan : ∀ o a l l' g', Rel l l' → V.can j (f o) a l' g' = true → ∃ g₀, W.can i o (g o a) l g₀ = true)
    (hloc : ∀ o a l l', Φ o l → Rel l l' → Rel (W.loc i o (g o a) l) (V.loc j (f o) a l'))
    (hΦ : ∀ o l l', Φ o l → Rel l l' → Φ' (f o) l') (hΨ : ∀ a l l', Ψ a l → Rel l l' → Ψ' a l') {p : Prog S α} :
    ∀ {l : L} {l' : L'}, Rel l l' → Always W i Φ Ψ p l → Always V j Φ' Ψ' (p.lift f g) l' := by
  induction p with
  | done a => exact fun hR h => hΨ _ _ _ h hR
  | call o k ih =>
    intro l l' hR h
    refine ⟨hΦ o l l' h.1 hR, fun a g' hc => ?_⟩
    obtain ⟨g₀, hc₀⟩ := hcan o a l l' g' hR hc
    exact ih _ (hloc o a l l' h.1 hR) (h.2 _ g₀ hc₀)

omit [DecidableEq ι] in
/-- A lifted program keeps what each of its operations keeps. -/
theorem Always.lifted {T : Sig} {f : T.Op → S.Op} {g : (o : T.Op) → S.Ans (f o) → T.Ans o} {P : L → Prop}
    {Q : T.Op → Prop} (hΦ : ∀ o l, Q o → P l → Φ (f o) l) (hloc : ∀ o a l, Q o → P l → P (W.loc i (f o) a l))
    {p : Prog T α} (hp : p.All Q) : ∀ {l : L}, P l → Always W i Φ (fun _ l => P l) (p.lift f g) l := by
  induction p with
  | done a => exact id
  | call o k ih => exact fun {l} h => ⟨hΦ o l hp.1 h, fun a g' _ => ih _ (hp.2 _) (hloc o a l hp.1 h)⟩

omit [DecidableEq ι] in
/-- A program keeps what each of its operations keeps. -/
theorem Always.of_all {P : L → Prop} {Q : S.Op → Prop} (hΦ : ∀ o l, Q o → P l → Φ o l)
    (hloc : ∀ o a l, Q o → P l → P (W.loc i o a l)) {p : Prog S α} (hp : p.All Q) :
    ∀ {l : L}, P l → Always W i Φ (fun _ l => P l) p l := by
  induction p with
  | done a => exact id
  | call o k ih => exact fun {l} h => ⟨hΦ o l hp.1 h, fun a g _ => ih a (hp.2 a) (hloc o a l hp.1 h)⟩

omit [DecidableEq ι] in
/-- A program keeps what the programs run for its calls keep. -/
theorem Always.interp {T : Sig} {h : (o : T.Op) → Prog S (T.Ans o)} {P : L → Prop}
    (hh : ∀ o l, P l → Always W i Φ (fun _ l => P l) (h o) l) (p : Prog T α) :
    ∀ {l : L}, P l → Always W i Φ (fun _ l => P l) (p.interp h) l := by
  induction p with
  | done a => exact id
  | call o k ih =>
    intro l hl
    apply Always.bind
    exact (hh o l hl).mono (fun _ _ hΦ => hΦ) fun a _ hl => ih a hl

end

/-! ## Observers -/

/-- `W` beside a record `M` that `see` keeps of each process's calls and their answers. -/
def World.observe {M : Type} (W : World S ι L G E) (see : (o : S.Op) → S.Ans o → M → M) : World S ι (L × M) G E where
  can i o a l g := W.can i o a l.1 g
  loc i o a l := (W.loc i o a l.1, see o a l.2)
  sh i o a l g := W.sh i o a l.1 g
  canDrop := W.canDrop
  dropLoc i o l := (W.dropLoc i o l.1, l.2)
  dropSh i o l g := W.dropSh i o l.1 g
  canEnv := W.canEnv
  env := W.env

/-- The runs of `W` in which every answer is one of `allowed`. -/
def World.allow (W : World S ι L G E) (allowed : ι → (o : S.Op) → S.Ans o → Bool) : World S ι L G E :=
  { W with can := fun i o a l g => W.can i o a l g && allowed i o a }

/-! ## Typestates of configurations -/

/-- Every process's remaining program keeps the typestate. -/
def Typed (W : World S ι L G E) (Φ : ι → S.Op → L → Prop) (Ψ : ι → α → L → Prop) (c : Conf S α ι L G) : Prop :=
  ∀ i p, c.prog i = some p → Always W i (Φ i) (Ψ i) p (c.loc i)

section
variable {W : World S ι L G E} {ok : Conf S α ι L G → Label S ι E → Prop}
  {Φ : ι → S.Op → L → Prop} {Ψ : ι → α → L → Prop} {c₀ c c' : Conf S α ι L G}

theorem Typed.step (h : Typed W Φ Ψ c) {l : Label S ι E} (hs : Step W c l c') : Typed W Φ Ψ c' := by
  cases hs with
  | @answer i o k a hp hc =>
    intro j p hj
    by_cases hij : j = i
    · subst hij
      simp only [Function.update_self, Option.some.injEq] at hj ⊢
      subst hj
      exact (h j _ hp).2 a _ hc
    · simp only [Function.update_of_ne hij] at hj ⊢
      exact h j p hj
  | @drop i o k hp hd =>
    intro j p hj
    by_cases hij : j = i
    · subst hij; simp at hj
    · simp only [Function.update_of_ne hij] at hj ⊢
      exact h j p hj
  | env he => exact h

theorem Typed.reach (h : Typed W Φ Ψ c₀) (hr : Reach W ok c₀ c) : Typed W Φ Ψ c :=
  hr.invariant h fun _ _ _ hc _ hs => hc.step hs

/-- The rest of `i` keeps its typestate; once `i` is dropped, `D` holds of what it left. -/
def Conf.Keeps (W : World S ι L G E) (i : ι) (Φ : S.Op → L → Prop) (Ψ : α → L → Prop) (D : L → Prop)
    (c : Conf S α ι L G) : Prop :=
  match c.prog i with
  | some p => Always W i Φ Ψ p (c.loc i)
  | none => D (c.loc i)

/-- One process's typestate along a run; the answers that `ok` lets through are those of
`V`, which changes local states as `W` does. -/
theorem Reach.keeps {V : World S ι L G E} {i : ι} {Φ : S.Op → L → Prop} {Ψ : α → L → Prop} {D : L → Prop}
    (hloc : V.loc = W.loc) (hcan : ∀ c o a, ok c (.answer i o a) → W.can i o a (c.loc i) c.sh = true →
      V.can i o a (c.loc i) c.sh = true)
    (hdrop : ∀ c o, ok c (.drop i) → Φ o (c.loc i) → W.canDrop i o = true → D (W.dropLoc i o (c.loc i)))
    (h₀ : c₀.Keeps V i Φ Ψ D) (hr : Reach W ok c₀ c) : c.Keeps V i Φ Ψ D := by
  refine hr.invariant (J := fun c => c.Keeps V i Φ Ψ D) h₀ ?_
  intro c l c' h hok hs
  unfold Conf.Keeps at h ⊢
  cases hs with
  | @answer j o k a hp hc =>
    by_cases hij : i = j
    · subst hij
      simp only [hp] at h
      simp only [Function.update_self]
      rw [← hloc]
      exact h.2 a _ (hcan c o a hok hc)
    · simp only [Function.update_of_ne hij]
      exact h
  | @drop j o k hp hd =>
    by_cases hij : i = j
    · subst hij
      simp only [hp] at h
      simp only [Function.update_self]
      exact hdrop c o hok h.1 hd
    · simp only [Function.update_of_ne hij]
      exact h
  | env he => exact h

theorem Typed.dropped {D : ι → L → Prop} (h : Typed W Φ Ψ c₀) (hnone : ∀ i, c₀.prog i = none → D i (c₀.loc i))
    (hdrop : ∀ c i o, ok c (.drop i) → Φ i o (c.loc i) → W.canDrop i o = true → D i (W.dropLoc i o (c.loc i)))
    (hr : Reach W ok c₀ c) {i : ι} (hi : c.prog i = none) : D i (c.loc i) := by
  have h₀ : c₀.Keeps W i (Φ i) (Ψ i) (D i) := by
    unfold Conf.Keeps
    split
    · rename_i p hp
      exact h i p hp
    · rename_i hp
      exact hnone i hp
  have hk := Reach.keeps rfl (fun _ _ _ _ hc => hc) (fun c o => hdrop c i o) h₀ hr
  unfold Conf.Keeps at hk
  rw [hi] at hk
  exact hk

/-- An invariant of the local states and the shared state: each step may use the
typestate of the call it answers or drops. -/
theorem Typed.pool {J : (ι → L) → G → Prop} (h : Typed W Φ Ψ c₀) (hJ : J c₀.loc c₀.sh)
    (hans : ∀ (c : Conf S α ι L G) i o a, J c.loc c.sh → Φ i o (c.loc i) → ok c (.answer i o a) →
      W.can i o a (c.loc i) c.sh = true →
      J (Function.update c.loc i (W.loc i o a (c.loc i))) (W.sh i o a (c.loc i) c.sh))
    (hdrop : ∀ (c : Conf S α ι L G) i o, J c.loc c.sh → Φ i o (c.loc i) → ok c (.drop i) → W.canDrop i o = true →
      J (Function.update c.loc i (W.dropLoc i o (c.loc i))) (W.dropSh i o (c.loc i) c.sh))
    (henv : ∀ (c : Conf S α ι L G) e, J c.loc c.sh → ok c (.env e) → W.canEnv e c.sh = true →
      J c.loc (W.env e c.sh))
    (hr : Reach W ok c₀ c) : J c.loc c.sh := by
  have key : Typed W Φ Ψ c ∧ J c.loc c.sh := by
    refine hr.invariant (J := fun c => Typed W Φ Ψ c ∧ J c.loc c.sh) ⟨h, hJ⟩ ?_
    rintro c l c' ⟨ht, hj⟩ hok hs
    refine ⟨ht.step hs, ?_⟩
    cases hs with
    | answer hp hc => exact hans _ _ _ _ hj (ht _ _ hp).1 hok hc
    | drop hp hd => exact hdrop _ _ _ hj (ht _ _ hp).1 hok hd
    | env he => exact henv _ _ hj hok he
  exact key.2

end

/-! ## Scripts -/

/-- What happens next; `answer` looks at the pending call and the shared state to
choose the answer. -/
inductive Choice (S : Sig) (ι G E : Type) where
  | answer (i : ι) (pick : (o : S.Op) → G → Option (S.Ans o))
  | drop (i : ι)
  | env (e : E)

section
variable (W : World S ι L G E) (ok : Conf S α ι L G → Label S ι E → Prop) [∀ c l, Decidable (ok c l)]

def Conf.next (c : Conf S α ι L G) : Choice S ι G E → Option (Conf S α ι L G)
  | .answer i pick =>
    match c.prog i with
    | some (.call o k) =>
      match pick o c.sh with
      | some a =>
        if W.can i o a (c.loc i) c.sh = true ∧ ok c (.answer i o a) then
          some { prog := Function.update c.prog i (some (k a))
                 loc := Function.update c.loc i (W.loc i o a (c.loc i))
                 sh := W.sh i o a (c.loc i) c.sh }
        else none
      | none => none
    | _ => none
  | .drop i =>
    match c.prog i with
    | some (.call o _) =>
      if W.canDrop i o = true ∧ ok c (.drop i) then
        some { prog := Function.update c.prog i none
               loc := Function.update c.loc i (W.dropLoc i o (c.loc i))
               sh := W.dropSh i o (c.loc i) c.sh }
      else none
    | _ => none
  | .env e => if W.canEnv e c.sh = true ∧ ok c (.env e) then some { c with sh := W.env e c.sh } else none

def Conf.run (c : Conf S α ι L G) : List (Choice S ι G E) → Option (Conf S α ι L G)
  | [] => some c
  | x :: xs => (c.next W ok x).bind fun c => c.run xs

variable {W ok}

theorem Conf.next_step {c c' : Conf S α ι L G} {x : Choice S ι G E} (h : c.next W ok x = some c') :
    ∃ l, ok c l ∧ Step W c l c' := by
  cases x with
  | answer i pick =>
    simp only [Conf.next] at h
    split at h
    · split at h
      · split at h
        · cases h; rename_i hp _ _ _ hc; exact ⟨_, hc.2, .answer hp hc.1⟩
        · cases h
      · cases h
    · cases h
  | drop i =>
    simp only [Conf.next] at h
    split at h
    · split at h
      · cases h; rename_i hp hc; exact ⟨_, hc.2, .drop hp hc.1⟩
      · cases h
    · cases h
  | env e =>
    simp only [Conf.next] at h
    split at h
    · cases h; rename_i hc; exact ⟨_, hc.2, .env hc.1⟩
    · cases h

/-- A script that runs through is a run. -/
theorem Conf.run_reach : ∀ {xs : List (Choice S ι G E)} {c c' : Conf S α ι L G}, c.run W ok xs = some c' →
    Reach W ok c c'
  | [], _, _, h => by cases h; exact .refl
  | x :: xs, c, c', h => by
    obtain ⟨d, hd, hr⟩ := Option.bind_eq_some_iff.mp h
    obtain ⟨l, hok, hs⟩ := next_step hd
    exact (Reach.step .refl hok hs).trans (run_reach hr)

theorem Conf.exists_reach (xs : List (Choice S ι G E)) {c : Conf S α ι L G} {P : Conf S α ι L G → Prop}
    [DecidablePred P] (h : (c.run W ok xs).any (fun c => decide (P c)) = true) :
    ∃ c', Reach W ok c c' ∧ P c' := by
  obtain ⟨c', hc', hP⟩ := Option.any_eq_true_iff_get _ _ |>.mp h |>.elim
    fun hs hp => (⟨(c.run W ok xs).get hs, (Option.some_get hs).symm, hp⟩ :
      ∃ c', c.run W ok xs = some c' ∧ decide (P c') = true)
  exact ⟨c', run_reach hc', of_decide_eq_true hP⟩

end

end Async
