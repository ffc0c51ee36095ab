import Llmctl.Async.World

/-!
# Replaying a program alone

Where every operation has one right answer in each state, a program has one
result when it runs alone. A program that fails at once on every other answer
can only succeed with that result.
-/

namespace Async

namespace Prog

variable {S : Sig} {α β G : Type}

section
variable (ans : (o : S.Op) → G → S.Ans o) (upd : (o : S.Op) → S.Ans o → G → G)

/-- The result and the final state when every call gets its right answer. -/
def eval : Prog S α → G → α × G
  | .done a, g => (a, g)
  | .call o k, g => (k (ans o g)).eval (upd o (ans o g) g)

@[simp] theorem eval_done (a : α) (g : G) : (Prog.done a : Prog S α).eval ans upd g = (a, g) := rfl

@[simp] theorem eval_call (o : S.Op) (k : S.Ans o → Prog S α) (g : G) :
    (Prog.call o k).eval ans upd g = (k (ans o g)).eval ans upd (upd o (ans o g) g) := rfl

theorem eval_bind (p : Prog S α) (f : α → Prog S β) (g : G) :
    (p >>= f).eval ans upd g = (f (p.eval ans upd g).1).eval ans upd (p.eval ans upd g).2 := by
  induction p generalizing g with
  | done a => rfl
  | call o k ih => exact ih _ _

/-- What every call meets, those after a right answer meet. -/
theorem All.of_eval {P : S.Op → Prop} {p : Prog S α} {f : α → Prog S β} {g : G} (h : (p >>= f).All P) :
    (f (p.eval ans upd g).1).All P := by
  induction p generalizing g with
  | done a => exact h
  | call o k ih => exact ih _ (h.2 _)

end

def Returns (Q : α → Prop) : Prog S α → Prop
  | .done a => Q a
  | .call _ k => ∀ a, (k a).Returns Q

theorem Returns.bind {Q : α → Prop} {R : β → Prop} {p : Prog S α} {f : α → Prog S β} (hp : p.Returns Q)
    (hf : ∀ a, Q a → (f a).Returns R) : (p >>= f).Returns R := by
  induction p with
  | done a => exact hf a hp
  | call o k ih => exact fun a => ih a (hp a)

/-- Every answer that is a fault leads to results that meet `Q`. -/
def Strict (fault : (o : S.Op) → S.Ans o → Bool) (Q : α → Prop) : Prog S α → Prop
  | .done _ => True
  | .call o k => ∀ a, if fault o a then (k a).Returns Q else (k a).Strict fault Q

theorem Strict.bind {fault : (o : S.Op) → S.Ans o → Bool} {Q : α → Prop} {R : β → Prop} {p : Prog S α}
    {f : α → Prog S β} (hp : p.Strict fault Q) (hbad : ∀ a, Q a → (f a).Returns R)
    (hf : ∀ a, (f a).Strict fault R) : (p >>= f).Strict fault R := by
  induction p with
  | done a => exact hf a
  | call o k ih =>
    intro a
    have ha := hp a
    by_cases hfault : fault o a = true
    · rw [if_pos hfault] at ha ⊢
      exact ha.bind hbad
    · rw [if_neg hfault] at ha ⊢
      exact ih a ha

end Prog

section
variable {S : Sig} {α L G E : Type} {W : World S Unit L G E}

/-- A program that runs alone reaches its result. -/
theorem reach_eval (ans : (o : S.Op) → L × G → S.Ans o) (hcan : ∀ o l g, W.can () o (ans o (l, g)) l g = true)
    (p : Prog S α) (l : L) (g : G) :
    let e := p.eval ans (fun o a s => (W.loc () o a s.1, W.sh () o a s.1 s.2)) (l, g)
    Reach W (fun _ _ => True) ⟨fun _ => some p, fun _ => l, g⟩ ⟨fun _ => some (.done e.1), fun _ => e.2.1, e.2.2⟩ := by
  induction p generalizing l g with
  | done a => exact .refl
  | call o k ih =>
    have hstep : Step W ⟨fun _ => some (.call o k), fun _ => l, g⟩ (.answer () o (ans o (l, g)))
        ⟨fun _ => some (k (ans o (l, g))), fun _ => W.loc () o (ans o (l, g)) l, W.sh () o (ans o (l, g)) l g⟩ := by
      have h := Step.answer (W := W) (c := ⟨fun _ => some (.call o k), fun _ => l, g⟩) (i := ()) rfl (hcan o l g)
      have hunit : ∀ {β : Type} (f : Unit → β) (b : β), Function.update f () b = fun _ => b := fun f b => by
        funext u
        exact Function.update_self () b f
      rwa [hunit, hunit] at h
    exact (Reach.step .refl trivial hstep).trans (ih _ _ _)

end

end Async
