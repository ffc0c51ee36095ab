import Mathlib.Data.List.Forall2
import Mathlib.Data.List.Sort

/-!
# Lists of related elements

An operation on lists that looks at the elements only through what related elements
share takes related lists to related lists. Two systems whose calls answer the same and
keep a relation of their states answer every run of calls the same.
-/

namespace Related

open List

variable {α β : Type} {R : α → β → Prop} {l : List α} {m : List β}

theorem filter (h : Forall₂ R l m) {p : α → Bool} {q : β → Bool} (hpq : ∀ a b, R a b → p a = q b) :
    Forall₂ R (l.filter p) (m.filter q) := by
  induction h with
  | nil => exact .nil
  | @cons a b l m hab _ ih =>
    have heq := hpq a b hab
    by_cases hp : p a = true
    · rw [filter_cons_of_pos hp, filter_cons_of_pos (heq ▸ hp)]
      exact .cons hab ih
    · rw [filter_cons_of_neg hp, filter_cons_of_neg (heq ▸ hp)]
      exact ih

theorem any (h : Forall₂ R l m) {p : α → Bool} {q : β → Bool} (hpq : ∀ a b, R a b → p a = q b) : l.any p = m.any q := by
  induction h with
  | nil => rfl
  | cons hab _ ih => simp [hpq _ _ hab, ih]

theorem all (h : Forall₂ R l m) {p : α → Bool} {q : β → Bool} (hpq : ∀ a b, R a b → p a = q b) : l.all p = m.all q := by
  induction h with
  | nil => rfl
  | cons hab _ ih => simp [hpq _ _ hab, ih]

theorem countP (h : Forall₂ R l m) {p : α → Bool} {q : β → Bool} (hpq : ∀ a b, R a b → p a = q b) :
    l.countP p = m.countP q := by
  rw [countP_eq_length_filter, countP_eq_length_filter]
  exact (filter h hpq).length_eq

theorem map {γ : Type} (h : Forall₂ R l m) {f : α → γ} {g : β → γ} (hfg : ∀ a b, R a b → f a = g b) : l.map f = m.map g := by
  induction h with
  | nil => rfl
  | cons hab _ ih => simp [hfg _ _ hab, ih]

theorem mapM {ε γ : Type} {S : α → γ → Prop} {l : List α} {m : List γ} (h : Forall₂ S l m) {f : α → Except ε γ}
    (hf : ∀ a b, S a b → f a = .ok b) : l.mapM f = .ok m := by
  induction h with
  | nil => rfl
  | cons hab _ ih =>
    rw [mapM_cons, hf _ _ hab, ih]
    rfl

theorem replace (h : Forall₂ R l m) {p : α → Bool} {q : β → Bool} (hpq : ∀ a b, R a b → p a = q b) {a : α} {b : β}
    (hab : R a b) : Forall₂ R (l.map fun x => if p x = true then a else x) (m.map fun y => if q y = true then b else y) := by
  induction h with
  | nil => exact .nil
  | @cons x y l m hxy _ ih =>
    rw [map_cons, map_cons]
    refine .cons ?_ ih
    rw [hpq x y hxy]
    split
    · exact hab
    · exact hxy

section
variable {r : α → α → Prop} [DecidableRel r] {s : β → β → Prop} [DecidableRel s]
  (hrs : ∀ a b a' b', R a b → R a' b' → (r a a' ↔ s b b'))

include hrs

theorem orderedInsert {a : α} {b : β} (hab : R a b) (h : Forall₂ R l m) :
    Forall₂ R (l.orderedInsert r a) (m.orderedInsert s b) := by
  induction h with
  | nil => exact .cons hab .nil
  | @cons x y l m hxy hlm ih =>
    rw [orderedInsert_cons, orderedInsert_cons]
    by_cases hr : r a x
    · rw [if_pos hr, if_pos ((hrs a b x y hab hxy).mp hr)]
      exact .cons hab (.cons hxy hlm)
    · rw [if_neg hr, if_neg fun hs => hr ((hrs a b x y hab hxy).mpr hs)]
      exact .cons hxy ih

theorem insertionSort (h : Forall₂ R l m) : Forall₂ R (l.insertionSort r) (m.insertionSort s) := by
  induction h with
  | nil => exact .nil
  | cons hab _ ih =>
    rw [insertionSort_cons, insertionSort_cons]
    exact orderedInsert hrs hab ih

end

/-! ## Runs of calls -/

section
variable {S T I O : Type}

/-- The answers to a run of calls, in order, and the state it leaves. -/
def answers (step : S → I → O × S) (s : S) : List I → List O × S
  | [] => ([], s)
  | call :: calls =>
    let (answer, s) := step s call
    let (rest, s) := answers step s calls
    (answer :: rest, s)

theorem answers_cons (step : S → I → O × S) (s : S) (call : I) (calls : List I) :
    (answers step s (call :: calls)).2 = (answers step (step s call).2 calls).2 := rfl

variable {Sim : S → T → Prop} {step : S → I → O × S} {step' : T → I → O × T} {Ok : I → Prop}

theorem answers_eq (hstep : ∀ s t call, Sim s t → Ok call → (step s call).1 = (step' t call).1 ∧ Sim (step s call).2 (step' t call).2) :
    ∀ (calls : List I) (s : S) (t : T), Sim s t → (∀ call ∈ calls, Ok call) →
      (answers step s calls).1 = (answers step' t calls).1 ∧ Sim (answers step s calls).2 (answers step' t calls).2 := by
  intro calls
  induction calls with
  | nil => exact fun s t h _ => ⟨rfl, h⟩
  | cons call calls ih =>
    intro s t h hok
    obtain ⟨hanswer, hnext⟩ := hstep s t call h (hok call mem_cons_self)
    obtain ⟨hrest, hlast⟩ := ih _ _ hnext fun call hcall => hok call (mem_cons_of_mem _ hcall)
    simp only [answers]
    exact ⟨by rw [hanswer, hrest], hlast⟩

end

end Related
