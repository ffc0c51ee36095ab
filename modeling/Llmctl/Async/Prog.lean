import Mathlib.Logic.Function.Basic

/-!
# Programs with suspension points

An asynchronous function calls the operations of a signature one after the
other and goes on with each answer. `Prog` is the tree of its calls; a future
is dropped at one of its nodes.
-/

namespace Async

structure Sig where
  Op : Type
  Ans : Op → Type

inductive Prog (S : Sig) (α : Type) : Type where
  | done (a : α)
  | call (o : S.Op) (k : S.Ans o → Prog S α)

namespace Prog

variable {S : Sig} {α β γ : Type}

protected def bind : Prog S α → (α → Prog S β) → Prog S β
  | .done a, f => f a
  | .call o k, f => .call o fun a => (k a).bind f

instance : Monad (Prog S) where
  pure := .done
  bind := Prog.bind

@[simp] theorem pure_eq (a : α) : (pure a : Prog S α) = .done a := rfl

@[simp] theorem done_bind (a : α) (f : α → Prog S β) : (Prog.done a >>= f) = f a := rfl

@[simp] theorem call_bind (o : S.Op) (k : S.Ans o → Prog S α) (f : α → Prog S β) :
    (Prog.call o k >>= f) = .call o fun a => k a >>= f := rfl

theorem bind_assoc (p : Prog S α) (f : α → Prog S β) (g : β → Prog S γ) :
    p >>= f >>= g = p >>= fun a => f a >>= g := by
  induction p with
  | done a => rfl
  | call o k ih => simp only [call_bind]; congr; funext a; exact ih a

def op (o : S.Op) : Prog S (S.Ans o) := .call o .done

@[simp] theorem op_bind (o : S.Op) (f : S.Ans o → Prog S β) : (op o >>= f) = .call o f := rfl

/-- A program over `S` as a program over a larger signature `T`. -/
def lift {T : Sig} (f : S.Op → T.Op) (g : (o : S.Op) → T.Ans (f o) → S.Ans o) : Prog S α → Prog T α
  | .done a => .done a
  | .call o k => .call (f o) fun a => (k (g o a)).lift f g

theorem lift_bind {T : Sig} (f : S.Op → T.Op) (g : (o : S.Op) → T.Ans (f o) → S.Ans o) (p : Prog S α)
    (q : α → Prog S β) : (p >>= q).lift f g = p.lift f g >>= fun a => (q a).lift f g := by
  induction p with
  | done a => rfl
  | call o k ih => simp only [call_bind, lift]; congr; funext a; exact ih (g o a)

/-- Runs a program over `T` for each call of a program over `S`. -/
def interp {T : Sig} (h : (o : S.Op) → Prog T (S.Ans o)) : Prog S α → Prog T α
  | .done a => .done a
  | .call o k => h o >>= fun a => (k a).interp h

theorem interp_bind {T : Sig} (h : (o : S.Op) → Prog T (S.Ans o)) (p : Prog S α) (q : α → Prog S β) :
    (p >>= q).interp h = p.interp h >>= fun a => (q a).interp h := by
  induction p with
  | done a => rfl
  | call o k ih =>
    simp only [call_bind, interp, bind_assoc]
    congr
    funext a
    exact ih a

@[simp] theorem interp_op {T : Sig} (h : (o : S.Op) → Prog T (S.Ans o)) (o : S.Op) : (op o).interp h = h o := by
  have hdone : ∀ p : Prog T (S.Ans o), (p >>= fun a => .done a) = p := by
    intro p
    induction p with
    | done a => rfl
    | call o k ih => simp only [call_bind]; congr; funext a; exact ih a
  exact hdone (h o)

def All (P : S.Op → Prop) : Prog S α → Prop
  | .done _ => True
  | .call o k => P o ∧ ∀ a, (k a).All P

theorem All.mono {P Q : S.Op → Prop} (hPQ : ∀ o, P o → Q o) {p : Prog S α} (hp : p.All P) : p.All Q := by
  induction p with
  | done a => trivial
  | call o k ih => exact ⟨hPQ o hp.1, fun a => ih a (hp.2 a)⟩

theorem all_of_forall {P : S.Op → Prop} (hP : ∀ o, P o) (p : Prog S α) : p.All P := by
  induction p with
  | done a => trivial
  | call o k ih => exact ⟨hP o, ih⟩

theorem All.lift {T : Sig} {P : S.Op → Prop} {Q : T.Op → Prop} {f : S.Op → T.Op}
    {g : (o : S.Op) → T.Ans (f o) → S.Ans o} {p : Prog S α} (hp : p.All P) (hf : ∀ o, P o → Q (f o)) :
    (p.lift f g).All Q := by
  induction p with
  | done a => trivial
  | call o k ih => exact ⟨hf o hp.1, fun a => ih _ (hp.2 _)⟩

theorem All.op {P : S.Op → Prop} {o : S.Op} {f : S.Ans o → Prog S β} (ho : P o) (hf : ∀ a, (f a).All P) :
    (Prog.op o >>= f).All P := ⟨ho, hf⟩

theorem All.bind {P : S.Op → Prop} {p : Prog S α} {q : α → Prog S β} (hp : p.All P) (hq : ∀ a, (q a).All P) :
    (p >>= q).All P := by
  induction p with
  | done a => exact hq a
  | call o k ih => exact ⟨hp.1, fun a => ih a (hp.2 a)⟩

/-- `All`, with what every returned value meets. -/
def Meets (P : S.Op → Prop) (Ψ : α → Prop) : Prog S α → Prop
  | .done a => Ψ a
  | .call o k => P o ∧ ∀ a, (k a).Meets P Ψ

theorem all_iff_meets {P : S.Op → Prop} {p : Prog S α} : p.All P ↔ p.Meets P fun _ => True := by
  induction p with
  | done a => exact Iff.rfl
  | call o k ih => exact and_congr_right fun _ => forall_congr' ih

theorem Meets.op {P : S.Op → Prop} {Ψ : β → Prop} {o : S.Op} {f : S.Ans o → Prog S β} (ho : P o)
    (hf : ∀ a, (f a).Meets P Ψ) : (Prog.op o >>= f).Meets P Ψ := ⟨ho, hf⟩

theorem Meets.bind {P : S.Op → Prop} {Φ : α → Prop} {Ψ : β → Prop} {p : Prog S α} {q : α → Prog S β}
    (hp : p.Meets P Φ) (hq : ∀ a, Φ a → (q a).Meets P Ψ) : (p >>= q).Meets P Ψ := by
  induction p with
  | done a => exact hq a hp
  | call o k ih => exact ⟨hp.1, fun a => ih a (hp.2 a)⟩

theorem All.seq {P : S.Op → Prop} {Ψ : β → Prop} {p : Prog S α} {q : α → Prog S β} (hp : p.All P)
    (hq : ∀ a, (q a).Meets P Ψ) : (p >>= q).Meets P Ψ :=
  (all_iff_meets.mp hp).bind fun a _ => hq a

end Prog

end Async
