import Mathlib.Data.List.Basic
import Mathlib.Data.Int.Order.Basic

/-!
# Sliding windows over a log

A log is appended to at its end; no order of the entries' times is assumed.
-/

namespace Async

section
variable {ε : Type} (time : ε → Int) (hit : ε → Bool)

def hitsSince (log : List ε) (from_ : Int) : Nat :=
  log.countP fun e => hit e && decide (from_ ≤ time e)

def hitsWithin (log : List ε) (from_ to_ : Int) : Nat :=
  log.countP fun e => hit e && decide (from_ ≤ time e) && decide (time e ≤ to_)

/-- Every hit was appended when fewer than `n` hits of the log lay at or after
the time `w` before it. -/
inductive Limited (w : Int) (n : Nat) : List ε → Prop where
  | nil : Limited w n []
  | snoc {log : List ε} {e : ε} (h : Limited w n log)
      (he : hit e = true → hitsSince time hit log (time e - w) < n) : Limited w n (log ++ [e])

variable {time hit}

variable (time hit) in
theorem hitsWithin_le_hitsSince (log : List ε) {t₁ t₂ : Int} (to_ : Int) (h : t₂ ≤ t₁) :
    hitsWithin time hit log t₁ to_ ≤ hitsSince time hit log t₂ := by
  refine List.countP_mono_left fun e _ he => ?_
  simp only [Bool.and_eq_true, decide_eq_true_eq] at he ⊢
  exact ⟨he.1.1, by omega⟩

variable (time hit) in
theorem hitsSince_mono (log : List ε) {t₁ t₂ : Int} (h : t₂ ≤ t₁) :
    hitsSince time hit log t₁ ≤ hitsSince time hit log t₂ := by
  refine List.countP_mono_left fun e _ he => ?_
  simp only [Bool.and_eq_true, decide_eq_true_eq] at he ⊢
  exact ⟨he.1, by omega⟩

theorem hitsSince_snoc_of_not_hit {log : List ε} {e : ε} (h : hit e = false) (t : Int) :
    hitsSince time hit (log ++ [e]) t = hitsSince time hit log t := by
  simp [hitsSince, List.countP_append, h]

/-- A limited log has at most `n` hits in every closed window of length `w`. -/
theorem Limited.hitsWithin_le {w : Int} {n : Nat} {log : List ε} (h : Limited time hit w n log) (t : Int) :
    hitsWithin time hit log t (t + w) ≤ n := by
  induction h with
  | nil => simp [hitsWithin]
  | @snoc log e _ he ih =>
    by_cases hin : hit e = true ∧ t ≤ time e ∧ time e ≤ t + w
    · have h1 := he hin.1
      have h2 := hitsWithin_le_hitsSince time hit log (t + w)
        (show time e - w ≤ t by omega)
      have h3 : hitsWithin time hit (log ++ [e]) t (t + w) ≤ hitsWithin time hit log t (t + w) + 1 := by
        simp only [hitsWithin, List.countP_append, List.countP_cons, List.countP_nil]
        split <;> omega
      omega
    · have h3 : hitsWithin time hit (log ++ [e]) t (t + w) = hitsWithin time hit log t (t + w) := by
        simp only [hitsWithin, List.countP_append, List.countP_singleton]
        rw [if_neg]; rfl
        simpa [and_assoc] using hin
      omega

end

end Async
