import Mathlib.Algebra.Ring.Nat
import Mathlib.Data.List.Basic

/-!
# Outcomes of programs that can panic

A call comes to a value, to an error that its caller sees, or to a panic. Arithmetic is that
of an unsigned 64-bit type with its checks.
-/

inductive Outcome (α : Type) where
  | ok (a : α)
  | err (message : String)
  | panic (message : String)

namespace Outcome

variable {α β : Type}

def bind (x : Outcome α) (f : α → Outcome β) : Outcome β :=
  match x with
  | ok a => f a
  | err e => err e
  | panic p => panic p

instance : Monad Outcome where
  pure := ok
  bind := bind

@[simp] theorem pure_eq (a : α) : (pure a : Outcome α) = ok a := rfl
@[simp] theorem ok_bind (a : α) (f : α → Outcome β) : ok a >>= f = f a := rfl
@[simp] theorem err_bind (e : String) (f : α → Outcome β) : err e >>= f = err e := rfl
@[simp] theorem panic_bind (p : String) (f : α → Outcome β) : panic p >>= f = panic p := rfl

instance : LawfulMonad Outcome := LawfulMonad.mk' Outcome
  (fun x => by cases x <;> rfl) (fun _ _ => rfl) (fun x _ _ => by cases x <;> rfl)

def ofResult : Except String α → Outcome α
  | .ok a => ok a
  | .error e => err e

def Panics : Outcome α → Prop
  | panic _ => True
  | _ => False

instance (x : Outcome α) : Decidable x.Panics :=
  match x with
  | ok _ => .isFalse id
  | err _ => .isFalse id
  | panic _ => .isTrue trivial

/-- A value or a panic, but no error. -/
def NoError : Outcome α → Prop
  | err _ => False
  | _ => True

@[simp] theorem not_panics_ok (a : α) : ¬ (ok a).Panics := id
@[simp] theorem not_panics_err (e : String) : ¬ (err e : Outcome α).Panics := id
@[simp] theorem panics_panic (p : String) : (panic p : Outcome α).Panics := trivial

@[simp] theorem not_panics_ofResult (r : Except String α) : ¬ (ofResult r).Panics := by
  cases r <;> exact id

@[simp] theorem ofResult_ok (a : α) : ofResult (.ok a) = ok a := rfl

theorem ofResult_eq_ok {r : Except String α} {a : α} : ofResult r = ok a ↔ r = .ok a := by
  cases r <;> simp [ofResult]

/-- A sequence panics in its first part, or in its second one after the first part's value. -/
theorem panics_bind {x : Outcome α} {f : α → Outcome β} :
    (x >>= f).Panics ↔ x.Panics ∨ ∃ a, x = ok a ∧ (f a).Panics := by
  cases x <;> simp

theorem bind_eq_ok {x : Outcome α} {f : α → Outcome β} {b : β} (h : x >>= f = ok b) : ∃ a, x = ok a ∧ f a = ok b := by
  cases x with
  | ok a => exact ⟨a, rfl, h⟩
  | err e => cases h
  | panic p => cases h

theorem NoError.bind {x : Outcome α} {f : α → Outcome β} (hx : x.NoError) (hf : ∀ a, x = ok a → (f a).NoError) :
    (x >>= f).NoError := by
  cases x with
  | ok a => exact hf a rfl
  | err e => cases hx
  | panic p => trivial

/-- A call without an error that panics or comes to a value that makes the next one panic. -/
theorem panics_of_noError {x : Outcome α} {f : α → Outcome β} (hx : x.NoError) (hf : ∀ a, x = ok a → (f a).Panics) :
    (x >>= f).Panics := by
  cases x with
  | ok a => exact hf a rfl
  | err e => cases hx
  | panic p => trivial

/-! ## Arithmetic and indexing -/

def add (x y : Nat) : Outcome Nat := if x + y < 2 ^ 64 then ok (x + y) else panic "attempt to add with overflow"

def sub (x y : Nat) : Outcome Nat := if y ≤ x then ok (x - y) else panic "attempt to subtract with overflow"

def mul (x y : Nat) : Outcome Nat := if x * y < 2 ^ 64 then ok (x * y) else panic "attempt to multiply with overflow"

def div (x y : Nat) : Outcome Nat := if y = 0 then panic "attempt to divide by zero" else ok (x / y)

def index (xs : List α) (i : Nat) : Outcome α :=
  match xs[i]? with
  | some x => ok x
  | none => panic "index out of bounds"

theorem add_panics (x y : Nat) : (add x y).Panics ↔ 2 ^ 64 ≤ x + y := by
  unfold add
  split
  · exact iff_of_false id (by omega)
  · exact iff_of_true trivial (by omega)

theorem sub_panics (x y : Nat) : (sub x y).Panics ↔ x < y := by
  unfold sub
  split
  · exact iff_of_false id (by omega)
  · exact iff_of_true trivial (by omega)

theorem mul_panics (x y : Nat) : (mul x y).Panics ↔ 2 ^ 64 ≤ x * y := by
  unfold mul
  split
  · exact iff_of_false id (by omega)
  · exact iff_of_true trivial (by omega)

theorem div_panics (x y : Nat) : (div x y).Panics ↔ y = 0 := by
  unfold div
  split
  · exact iff_of_true trivial ‹_›
  · exact iff_of_false id ‹_›

theorem index_panics (xs : List α) (i : Nat) : (index xs i).Panics ↔ xs.length ≤ i := by
  rw [← List.getElem?_eq_none_iff]
  unfold index
  cases xs[i]? with
  | some x => exact iff_of_false id (by simp)
  | none => exact iff_of_true trivial rfl

theorem add_ok {x y : Nat} (h : x + y < 2 ^ 64) : add x y = ok (x + y) := if_pos h
theorem sub_ok {x y : Nat} (h : y ≤ x) : sub x y = ok (x - y) := if_pos h
theorem mul_ok {x y : Nat} (h : x * y < 2 ^ 64) : mul x y = ok (x * y) := if_pos h
theorem div_ok {x y : Nat} (h : y ≠ 0) : div x y = ok (x / y) := if_neg h

theorem noError_div (x y : Nat) : (div x y).NoError := by
  unfold div
  split <;> trivial

theorem noError_mul (x y : Nat) : (mul x y).NoError := by
  unfold mul
  split <;> trivial

theorem noError_add (x y : Nat) : (add x y).NoError := by
  unfold add
  split <;> trivial

theorem noError_index (xs : List α) (i : Nat) : (index xs i).NoError := by
  unfold index
  split <;> trivial

theorem eq_ok_of_div {x y z : Nat} (h : div x y = ok z) : y ≠ 0 ∧ z = x / y := by
  unfold div at h
  split at h
  · cases h
  · rename_i hy
    cases h
    exact ⟨hy, rfl⟩

theorem eq_ok_of_mul {x y z : Nat} (h : mul x y = ok z) : z = x * y := by
  unfold mul at h
  split at h
  · cases h
    rfl
  · cases h

/-! ## Traversals -/

/-- A traversal panics at its first element that is no value. -/
theorem mapM_panics {f : α → Outcome β} {l : List α} (h : (l.mapM f).Panics) :
    ∃ before x after, l = before ++ x :: after ∧ (∀ y ∈ before, ∃ b, f y = ok b) ∧ (f x).Panics := by
  induction l with
  | nil => cases h
  | cons a l ih =>
    rw [List.mapM_cons, panics_bind] at h
    obtain h | ⟨b, hb, h⟩ := h
    · exact ⟨[], a, l, rfl, by simp, h⟩
    · rw [panics_bind] at h
      obtain h | ⟨bs, -, h⟩ := h
      · obtain ⟨before, x, after, rfl, hbefore, hx⟩ := ih h
        refine ⟨a :: before, x, after, rfl, ?_, hx⟩
        intro y hy
        cases hy with
        | head => exact ⟨b, hb⟩
        | tail _ hy => exact hbefore y hy
      · cases h

/-- A panic is reached where no element before it is an error. -/
theorem panics_of_mapM {f : α → Outcome β} {before after : List α} {x : α} (hbefore : ∀ y ∈ before, (f y).NoError)
    (hx : (f x).Panics) : ((before ++ x :: after).mapM f).Panics := by
  induction before with
  | nil =>
    rw [List.nil_append, List.mapM_cons, panics_bind]
    exact .inl hx
  | cons a before ih =>
    rw [List.cons_append, List.mapM_cons, panics_bind]
    cases ha : f a with
    | err e =>
      have hno := hbefore a List.mem_cons_self
      rw [ha] at hno
      cases hno
    | panic p => exact .inl trivial
    | ok b =>
      refine .inr ⟨b, rfl, ?_⟩
      rw [panics_bind]
      exact .inl (ih fun y hy => hbefore y (List.mem_cons_of_mem a hy))

theorem noError_mapM {f : α → Outcome β} {l : List α} (h : ∀ x ∈ l, (f x).NoError) : (l.mapM f).NoError := by
  induction l with
  | nil => trivial
  | cons a l ih =>
    rw [List.mapM_cons]
    refine (h a List.mem_cons_self).bind fun b _ => ?_
    exact (ih fun x hx => h x (List.mem_cons_of_mem a hx)).bind fun bs _ => trivial

theorem eq_ok_of_mapM {f : α → Outcome β} {l : List α} {bs : List β} (h : l.mapM f = ok bs) : ∀ x ∈ l, ∃ b, f x = ok b := by
  induction l generalizing bs with
  | nil =>
    intro x hx
    cases hx
  | cons a l ih =>
    rw [List.mapM_cons] at h
    obtain ⟨b, hb, h⟩ := bind_eq_ok h
    obtain ⟨bs, hbs, -⟩ := bind_eq_ok h
    intro x hx
    cases hx with
    | head => exact ⟨b, hb⟩
    | tail _ hx => exact ih hbs x hx

theorem mapM_eq_ok {f : α → Outcome β} {l : List α} (h : ∀ x ∈ l, ∃ b, f x = ok b) : ∃ bs, l.mapM f = ok bs := by
  induction l with
  | nil => exact ⟨[], rfl⟩
  | cons a l ih =>
    obtain ⟨b, hb⟩ := h a List.mem_cons_self
    obtain ⟨bs, hbs⟩ := ih fun x hx => h x (List.mem_cons_of_mem a hx)
    refine ⟨b :: bs, ?_⟩
    rw [List.mapM_cons, hb, hbs]
    rfl

/-! ## Programs without panics -/

/-- Where it does not panic, a call comes to the result. -/
def Refines (x : Outcome α) (r : Except String α) : Prop :=
  match x with
  | ok a => r = .ok a
  | err e => r = .error e
  | panic _ => True

theorem refines_ofResult (r : Except String α) : (ofResult r).Refines r := by
  cases r <;> rfl

theorem Refines.bind {x : Outcome α} {r : Except String α} {f : α → Outcome β} {g : α → Except String β} (h : x.Refines r)
    (hf : ∀ a, x = ok a → (f a).Refines (g a)) : (x >>= f).Refines (r >>= g) := by
  cases x with
  | ok a =>
    cases h
    exact hf a rfl
  | err e =>
    cases h
    rfl
  | panic p => trivial

/-- A check in front of a program. -/
theorem Refines.check {x : Outcome α} {f : α → Outcome β} {r : Except String β} (hx : x.NoError)
    (hf : ∀ a, x = ok a → (f a).Refines r) : (x >>= f).Refines r := by
  cases x with
  | ok a => exact hf a rfl
  | err e => cases hx
  | panic p => trivial

theorem Refines.mapM {f : α → Outcome β} {g : α → Except String β} {l : List α} (h : ∀ x ∈ l, (f x).Refines (g x)) :
    (l.mapM f).Refines (l.mapM g) := by
  induction l with
  | nil => rfl
  | cons a l ih =>
    rw [List.mapM_cons, List.mapM_cons]
    refine (h a List.mem_cons_self).bind fun b _ => ?_
    refine (ih fun x hx => h x (List.mem_cons_of_mem a hx)).bind fun bs _ => ?_
    exact rfl

/-! ## Calls that change a state -/

/-- What was written before an error or a panic stays. -/
def Call (S α : Type) := S → Outcome α × S

namespace Call

variable {S : Type}

def bind (x : Call S α) (f : α → Call S β) : Call S β := fun s =>
  match x s with
  | (ok a, s) => f a s
  | (err e, s) => (err e, s)
  | (panic p, s) => (panic p, s)

instance : Monad (Call S) where
  pure a := fun s => (ok a, s)
  bind := bind

def lift (x : Outcome α) : Call S α := fun s => (x, s)

def PanicsAt (x : Call S α) (s : S) : Prop := (x s).1.Panics

variable {x : Call S α} {f : α → Call S β} {s : S}

theorem bind_of_ok {a : α} {s' : S} (h : x s = (ok a, s')) : (x >>= f) s = f a s' := by
  change bind x f s = _
  unfold bind
  rw [h]

theorem lift_bind (a : α) : (lift (ok a) >>= f) s = f a s := rfl

theorem panicsAt_lift {x : Outcome α} : (lift x : Call S α).PanicsAt s ↔ x.Panics := Iff.rfl

theorem panicsAt_bind : (x >>= f).PanicsAt s ↔ x.PanicsAt s ∨ ∃ a s', x s = (ok a, s') ∧ (f a).PanicsAt s' := by
  change (bind x f s).1.Panics ↔ (x s).1.Panics ∨ _
  unfold bind
  obtain ⟨r, s'⟩ := x s
  cases r with
  | ok a =>
    constructor
    · exact fun h => .inr ⟨a, s', rfl, h⟩
    · rintro (h | ⟨a', s'', heq, h⟩)
      · cases h
      · cases heq
        exact h
  | err e => simp
  | panic p => simp

theorem panicsAt_lift_bind {x : Outcome α} : (lift x >>= f).PanicsAt s ↔ x.Panics ∨ ∃ a, x = ok a ∧ (f a).PanicsAt s := by
  rw [panicsAt_bind, panicsAt_lift]
  constructor
  · rintro (h | ⟨a, s', heq, h⟩)
    · exact .inl h
    · injection heq with hx hs
      subst hs
      exact .inr ⟨a, hx, h⟩
  · rintro (h | ⟨a, rfl, h⟩)
    · exact .inl h
    · exact .inr ⟨a, s, rfl, h⟩

/-- What holds of each state on the way holds of the last one. -/
theorem bind_state {P : S → Prop} (hx : P (x s).2) (hf : ∀ a s', x s = (ok a, s') → P (f a s').2) : P ((x >>= f) s).2 := by
  change P (bind x f s).2
  unfold bind
  rcases hxs : x s with ⟨r, s'⟩
  rw [hxs] at hx
  cases r with
  | ok a => exact hf a s' hxs
  | err e => exact hx
  | panic p => exact hx

theorem lift_bind_state {P : S → Prop} {x : Outcome α} (hs : P s) (hf : ∀ a, x = ok a → P (f a s).2) :
    P ((lift x >>= f) s).2 := by
  refine bind_state hs fun a s' h => ?_
  injection h with hx hs'
  subst hs'
  exact hf a hx

end Call

end Outcome
