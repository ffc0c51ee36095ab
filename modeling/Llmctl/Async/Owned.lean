import Mathlib.Algebra.BigOperators.Group.Finset.Basic
import Mathlib.Algebra.Order.BigOperators.Group.Finset

/-!
# Locks and counters

What is shared records which locks are taken and how many units of a resource
are out; what each process holds is in its own state. The two agree.
-/

namespace Async

variable {ι κ A : Type}

/-! ## Locks -/

/-- A lock is taken exactly while a process holds it, and by one process only. -/
structure Owned (holder : ι → Option κ) (taken : κ → Bool) : Prop where
  taken_of : ∀ i k, holder i = some k → taken k = true
  held_of : ∀ k, taken k = true → ∃ i, holder i = some k
  own : ∀ i j k, holder i = some k → holder j = some k → i = j

section
variable [DecidableEq ι] [DecidableEq κ] {holder : ι → Option κ} {taken : κ → Bool} {i : ι} {k : κ}

omit [DecidableEq ι] [DecidableEq κ] in
theorem Owned.init : Owned (fun _ : ι => (none : Option κ)) fun _ => false := by
  constructor <;> simp

theorem Owned.acquire (h : Owned holder taken) (hi : holder i = none) (hk : taken k = false) :
    Owned (Function.update holder i (some k)) (Function.update taken k true) := by
  have hnot : ∀ j, holder j ≠ some k := by
    intro j hj
    rw [h.taken_of j k hj] at hk
    cases hk
  constructor
  · intro j k' hj
    by_cases hji : j = i
    · subst hji; simp at hj; subst hj; simp
    · rw [Function.update_of_ne hji] at hj
      have hne : k' ≠ k := fun e => hnot j (e ▸ hj)
      rw [Function.update_of_ne hne]
      exact h.taken_of j k' hj
  · intro k' hk'
    by_cases hkk : k' = k
    · exact ⟨i, by simp [hkk]⟩
    · rw [Function.update_of_ne hkk] at hk'
      obtain ⟨j, hj⟩ := h.held_of k' hk'
      have hji : j ≠ i := fun e => by rw [e, hi] at hj; cases hj
      exact ⟨j, by rw [Function.update_of_ne hji]; exact hj⟩
  · intro j j' k' hj hj'
    by_cases hji : j = i <;> by_cases hji' : j' = i
    · rw [hji, hji']
    · subst hji; simp [Function.update_of_ne hji'] at hj hj'; subst hj; exact absurd hj' (hnot j')
    · subst hji'; simp [Function.update_of_ne hji] at hj hj'; subst hj'; exact absurd hj (hnot j)
    · rw [Function.update_of_ne hji] at hj
      rw [Function.update_of_ne hji'] at hj'
      exact h.own j j' k' hj hj'

theorem Owned.release (h : Owned holder taken) (hi : holder i = some k) :
    Owned (Function.update holder i none) (Function.update taken k false) := by
  have hof : ∀ {j k'}, Function.update holder i none j = some k' → j ≠ i ∧ holder j = some k' := by
    intro j k' hj
    by_cases hji : j = i
    · subst hji; simp at hj
    · rw [Function.update_of_ne hji] at hj; exact ⟨hji, hj⟩
  constructor
  · intro j k' hj
    obtain ⟨hji, hj⟩ := hof hj
    have hne : k' ≠ k := fun e => hji (h.own j i k (e ▸ hj) hi)
    rw [Function.update_of_ne hne]
    exact h.taken_of j k' hj
  · intro k' hk'
    by_cases hkk : k' = k
    · simp [hkk] at hk'
    · rw [Function.update_of_ne hkk] at hk'
      obtain ⟨j, hj⟩ := h.held_of k' hk'
      have hji : j ≠ i := fun e => by rw [e, hi] at hj; cases hj; exact hkk rfl
      exact ⟨j, by rw [Function.update_of_ne hji]; exact hj⟩
  · intro j j' k' hj hj'
    exact h.own j j' k' (hof hj).2 (hof hj').2

end

/-! ## Flags

A flag is set for a process and cleared by any process. Where processes give up
without clearing, flags outlive them; where one clears another's flag, two can
hold it. -/

def Backed (holder : ι → Option κ) (taken : κ → Bool) : Prop := ∀ k, taken k = true → ∃ i, holder i = some k

/-- A held flag is set, and held by one process only. -/
structure Single (holder : ι → Option κ) (taken : κ → Bool) : Prop where
  taken_of : ∀ i k, holder i = some k → taken k = true
  own : ∀ i j k, holder i = some k → holder j = some k → i = j

section
variable [DecidableEq ι] [DecidableEq κ] {holder : ι → Option κ} {taken : κ → Bool} {i : ι} {k : κ}

omit [DecidableEq κ] in
theorem Backed.keep (h : Backed holder taken) {a : Option κ} (ha : a = holder i) :
    Backed (Function.update holder i a) taken := by
  rw [ha, Function.update_eq_self]
  exact h

theorem Backed.acquire (h : Backed holder taken) (hi : holder i = none) :
    Backed (Function.update holder i (some k)) (Function.update taken k true) := by
  intro k' hk'
  by_cases hkk : k' = k
  · exact ⟨i, by simp [hkk]⟩
  · rw [Function.update_of_ne hkk] at hk'
    obtain ⟨j, hj⟩ := h k' hk'
    have hji : j ≠ i := fun e => by rw [e, hi] at hj; cases hj
    exact ⟨j, by rw [Function.update_of_ne hji]; exact hj⟩

theorem Backed.clear (h : Backed holder taken) (hi : ∀ k', holder i = some k' → k' = k) :
    Backed (Function.update holder i none) (Function.update taken k false) := by
  intro k' hk'
  by_cases hkk : k' = k
  · simp [hkk] at hk'
  · rw [Function.update_of_ne hkk] at hk'
    obtain ⟨j, hj⟩ := h k' hk'
    have hji : j ≠ i := fun e => hkk (hi k' (e ▸ hj))
    exact ⟨j, by rw [Function.update_of_ne hji]; exact hj⟩

omit [DecidableEq κ] in
theorem Single.keep (h : Single holder taken) {a : Option κ} (ha : a = holder i) :
    Single (Function.update holder i a) taken := by
  rw [ha, Function.update_eq_self]
  exact h

omit [DecidableEq κ] in
theorem held_of_update_none {j : ι} (hj : Function.update holder i none j = some k) : j ≠ i ∧ holder j = some k := by
  by_cases hji : j = i
  · subst hji; simp at hj
  · rw [Function.update_of_ne hji] at hj
    exact ⟨hji, hj⟩

omit [DecidableEq κ] in
theorem Single.abandon (h : Single holder taken) : Single (Function.update holder i none) taken where
  taken_of _ _ hj := h.taken_of _ _ (held_of_update_none hj).2
  own _ _ _ hj hj' := h.own _ _ _ (held_of_update_none hj).2 (held_of_update_none hj').2

theorem Single.acquire (h : Single holder taken) (hk : taken k = false) :
    Single (Function.update holder i (some k)) (Function.update taken k true) := by
  have hnot : ∀ j, holder j ≠ some k := by
    intro j hj
    rw [h.taken_of j k hj] at hk
    cases hk
  constructor
  · intro j k' hj
    by_cases hkk : k' = k
    · simp [hkk]
    · have hji : j ≠ i := by
        rintro rfl
        rw [Function.update_self] at hj
        exact hkk (Option.some.inj hj).symm
      rw [Function.update_of_ne hji] at hj
      rw [Function.update_of_ne hkk]
      exact h.taken_of j k' hj
  · intro j j' k' hj hj'
    by_cases hji : j = i <;> by_cases hji' : j' = i
    · rw [hji, hji']
    · subst hji; simp [Function.update_of_ne hji'] at hj hj'; subst hj; exact absurd hj' (hnot j')
    · subst hji'; simp [Function.update_of_ne hji] at hj hj'; subst hj'; exact absurd hj (hnot j)
    · rw [Function.update_of_ne hji] at hj
      rw [Function.update_of_ne hji'] at hj'
      exact h.own j j' k' hj hj'

theorem Single.clear (h : Single holder taken) (halone : ∀ j, j ≠ i → holder j ≠ some k) :
    Single (Function.update holder i none) (Function.update taken k false) where
  taken_of j k' hj := by
    obtain ⟨hji, hj⟩ := held_of_update_none hj
    have hkk : k' ≠ k := fun e => halone j hji (e ▸ hj)
    rw [Function.update_of_ne hkk]
    exact h.taken_of j k' hj
  own _ _ _ hj hj' := h.own _ _ _ (held_of_update_none hj).2 (held_of_update_none hj').2

end

/-! ## Counters -/

section
variable {M : Type} [AddCommMonoid M]

section
variable [DecidableEq ι] [Fintype ι] (φ : A → M) (f : ι → A) (i : ι)

/-- What the processes hold together after `i`'s holding changed from `f i` to `a`. -/
theorem sum_update_add (a : A) :
    ∑ j, φ (Function.update f i a j) + φ (f i) = ∑ j, φ (f j) + φ a := by
  have hrest : ∑ j ∈ Finset.univ.erase i, φ (Function.update f i a j) =
      ∑ j ∈ Finset.univ.erase i, φ (f j) := by
    apply Finset.sum_congr rfl
    intro j hj
    rw [Function.update_of_ne (Finset.ne_of_mem_erase hj)]
  rw [← Finset.add_sum_erase _ _ (Finset.mem_univ i), ← Finset.add_sum_erase (a := i) _ (fun j => φ (f j))
    (Finset.mem_univ i), hrest, Function.update_self, add_comm _ (φ (f i)), add_comm (φ a), add_assoc]

end

/-- What is out is what the processes hold together. -/
def Tallied [Fintype ι] (φ : A → M) (f : ι → A) (out : M) : Prop := ∑ i, φ (f i) = out

section
variable [DecidableEq ι] [Fintype ι] {φ : A → M} {f : ι → A} {i : ι} {a : A} {out out' : M}

theorem Tallied.update [IsCancelAdd M] (h : Tallied φ f out) (he : φ (f i) + out' = φ a + out) :
    Tallied φ (Function.update f i a) out' := by
  have hsum := sum_update_add φ f i a
  unfold Tallied at h ⊢
  rw [h, add_comm out, ← he, add_comm (φ (f i))] at hsum
  exact add_right_cancel hsum

theorem Tallied.keep [IsCancelAdd M] (h : Tallied φ f out) (ha : φ a = φ (f i)) : Tallied φ (Function.update f i a) out :=
  h.update (by rw [ha])

omit [DecidableEq ι] in
theorem Tallied.none_out (h : Tallied φ f out) (hnone : ∀ i, φ (f i) = 0) : out = 0 := by
  unfold Tallied at h
  simp only [hnone, Finset.sum_const_zero] at h
  exact h.symm

end

end

section
variable [Fintype ι] (φ : A → Nat) (f : ι → A) (i : ι)

theorem le_sum : φ (f i) ≤ ∑ j, φ (f j) :=
  Finset.single_le_sum (f := fun j => φ (f j)) (fun _ _ => Nat.zero_le _) (Finset.mem_univ i)

theorem Tallied.le {out : Nat} (h : Tallied φ f out) : φ (f i) ≤ out := by
  have hle := le_sum φ f i
  unfold Tallied at h
  rwa [h] at hle

end

theorem forall_update [DecidableEq ι] {P : A → Prop} {f : ι → A} {i : ι} {a : A} (ha : P a) (hf : ∀ j, P (f j)) :
    ∀ j, P (Function.update f i a j) :=
  (Function.forall_update_iff f fun _ x => P x).mpr ⟨ha, fun j _ => hf j⟩

theorem comp_update_eq {B : Type} [DecidableEq ι] (f : A → B) (g : ι → A) (i : ι) (a : A) :
    (fun j => f (Function.update g i a j)) = Function.update (fun j => f (g j)) i (f a) :=
  funext fun j => Function.apply_update (fun _ => f) g i a j

end Async
