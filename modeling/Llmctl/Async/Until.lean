import Llmctl.Async.Prog

/-!
# Programs that agree up to a call

What two programs record up to the first answer that stops the record, where they make the
same calls until then.
-/

namespace Async.Prog

variable {S : Sig} {α β γ G R : Type}

/-- Both make the same calls until an answer stops them. -/
inductive SameUntil (stop : (o : S.Op) → S.Ans o → Bool) : Prog S α → Prog S β → Prop where
  | done (a : α) (b : β) : SameUntil stop (.done a) (.done b)
  | call (o : S.Op) {k : S.Ans o → Prog S α} {k' : S.Ans o → Prog S β}
      (h : ∀ a, stop o a = false → SameUntil stop (k a) (k' a)) : SameUntil stop (.call o k) (.call o k')

section
variable {stop : (o : S.Op) → S.Ans o → Bool}

theorem SameUntil.refl (p : Prog S α) : SameUntil stop p p := by
  induction p with
  | done a => exact .done a a
  | call o k ih => exact .call o fun a _ => ih a

theorem SameUntil.bind (p : Prog S α) {f : α → Prog S β} {f' : α → Prog S γ} (h : ∀ a, SameUntil stop (f a) (f' a)) :
    SameUntil stop (p >>= f) (p >>= f') := by
  induction p with
  | done a => exact h a
  | call o k ih => exact .call o fun a _ => ih a

end

section
variable (ans : (o : S.Op) → G → S.Ans o) (upd : (o : S.Op) → S.Ans o → G → G) (stop : (o : S.Op) → S.Ans o → Bool)
  (row : (o : S.Op) → S.Ans o → Option R)

/-- The rows of the calls up to the one that stops. -/
def rowsUntil : Prog S α → G → List R
  | .done _, _ => []
  | .call o k, g =>
    (row o (ans o g)).toList ++ if stop o (ans o g) then [] else (k (ans o g)).rowsUntil (upd o (ans o g) g)

variable {stop}

theorem SameUntil.rowsUntil_eq {p : Prog S α} {q : Prog S β} (h : SameUntil stop p q) (g : G) :
    p.rowsUntil ans upd stop row g = q.rowsUntil ans upd stop row g := by
  induction h generalizing g with
  | done a b => rfl
  | call o _ ih =>
    rw [rowsUntil, rowsUntil]
    by_cases hstop : stop o (ans o g) = true
    · rw [if_pos hstop, if_pos hstop]
    · rw [if_neg hstop, if_neg hstop, ih _ (by simpa using hstop)]

end

end Async.Prog
