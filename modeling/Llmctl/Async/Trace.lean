import Llmctl.Async.World

/-!
# Runs with the states that they pass

`Reach` forgets how a state was reached. A claim that something was so at some moment
of a run is about the states that this run has passed.
-/

namespace Async

variable {S : Sig} {α ι L G E : Type} [DecidableEq ι]

/-- A run from `c₀` and the states that it passed before the last one. -/
inductive Run (W : World S ι L G E) (ok : Conf S α ι L G → Label S ι E → Prop) (c₀ : Conf S α ι L G) :
    List (Conf S α ι L G) → Conf S α ι L G → Prop where
  | refl : Run W ok c₀ [] c₀
  | step {past : List (Conf S α ι L G)} {c c' : Conf S α ι L G} {l : Label S ι E} (h : Run W ok c₀ past c)
      (hok : ok c l) (hs : Step W c l c') : Run W ok c₀ (past ++ [c]) c'

section
variable {W : World S ι L G E} {ok : Conf S α ι L G → Label S ι E → Prop} {c₀ c : Conf S α ι L G}
  {past : List (Conf S α ι L G)}

theorem Run.reach (h : Run W ok c₀ past c) : Reach W ok c₀ c := by
  induction h with
  | refl => exact .refl
  | step _ hok hs ih => exact ih.step hok hs

/-- An invariant of the past and the present of a run. -/
theorem Run.invariant {J : List (Conf S α ι L G) → Conf S α ι L G → Prop} (h₀ : J [] c₀)
    (hstep : ∀ past c l c', Reach W ok c₀ c → J past c → ok c l → Step W c l c' → J (past ++ [c]) c')
    (h : Run W ok c₀ past c) : J past c := by
  induction h with
  | refl => exact h₀
  | step h hok hs ih => exact hstep _ _ _ _ h.reach ih hok hs

end

section
variable (W : World S ι L G E) (ok : Conf S α ι L G → Label S ι E → Prop) [∀ c l, Decidable (ok c l)]

/-- Plays a script after `past`. -/
def Conf.passed (c : Conf S α ι L G) (past : List (Conf S α ι L G)) :
    List (Choice S ι G E) → Option (List (Conf S α ι L G) × Conf S α ι L G)
  | [] => some (past, c)
  | x :: xs => (c.next W ok x).bind fun c' => c'.passed (past ++ [c]) xs

variable {W ok}

theorem Conf.passed_run {c₀ : Conf S α ι L G} : ∀ {xs : List (Choice S ι G E)} {c : Conf S α ι L G}
    {past : List (Conf S α ι L G)} {end_ : List (Conf S α ι L G) × Conf S α ι L G}, Run W ok c₀ past c →
    c.passed W ok past xs = some end_ → Run W ok c₀ end_.1 end_.2
  | [], _, _, _, hr, h => by cases h; exact hr
  | x :: xs, c, past, end_, hr, h => by
    obtain ⟨d, hd, hrest⟩ := Option.bind_eq_some_iff.mp h
    obtain ⟨l, hok, hs⟩ := next_step hd
    exact passed_run (hr.step hok hs) hrest

theorem Conf.exists_run (xs : List (Choice S ι G E)) {c : Conf S α ι L G}
    {P : List (Conf S α ι L G) → Conf S α ι L G → Prop} [∀ past c, Decidable (P past c)]
    (h : (c.passed W ok [] xs).any (fun e => decide (P e.1 e.2)) = true) : ∃ past c', Run W ok c past c' ∧ P past c' := by
  obtain ⟨e, he, hP⟩ := Option.any_eq_true_iff_get _ _ |>.mp h |>.elim
    fun hs hp => (⟨(c.passed W ok [] xs).get hs, (Option.some_get hs).symm, hp⟩ :
      ∃ e, c.passed W ok [] xs = some e ∧ decide (P e.1 e.2) = true)
  exact ⟨e.1, e.2, passed_run .refl he, of_decide_eq_true hP⟩

end

end Async
