import Mathlib.Algebra.Ring.Nat
import Mathlib.Data.Nat.Notation
import Mathlib.Data.List.Basic

/-!
# Numbers of a fixed width

Decimal numbers that are filled up with zeros compare like the numbers they stand for,
and what follows them decides where they are equal.
-/

namespace Text

/-- The last `w` decimal digits of a number. -/
def pad : Nat → Nat → List Char
  | 0, _ => []
  | w + 1, n => Nat.digitChar (n / 10 ^ w) :: pad w (n % 10 ^ w)

/-- Reads back a number of `w` digits. -/
def readPad : Nat → List Char → Option (Nat × List Char)
  | 0, s => some (0, s)
  | w + 1, c :: s => if c.isDigit then (readPad w s).map fun (n, s) => ((c.toNat - 48) * 10 ^ w + n, s) else none
  | _ + 1, [] => none

theorem digitChar_lt_iff {m n : Nat} (hm : m < 10) (hn : n < 10) : Nat.digitChar m < Nat.digitChar n ↔ m < n := by
  have h : ∀ m < 10, ∀ n < 10, Nat.digitChar m < Nat.digitChar n ↔ m < n := by decide
  exact h m hm n hn

theorem digitChar_inj {m n : Nat} (hm : m < 10) (hn : n < 10) : Nat.digitChar m = Nat.digitChar n ↔ m = n := by
  have h : ∀ m < 10, ∀ n < 10, Nat.digitChar m = Nat.digitChar n ↔ m = n := by decide
  exact h m hm n hn

theorem lt_iff_div_mod {m n p : Nat} : m < n ↔ m / p < n / p ∨ m / p = n / p ∧ m % p < n % p := by
  have hm := Nat.div_add_mod m p
  have hn := Nat.div_add_mod n p
  constructor
  · intro h
    by_cases heq : m / p = n / p
    · rw [heq] at hm
      exact Or.inr ⟨heq, by omega⟩
    · exact Or.inl (Nat.lt_of_le_of_ne (Nat.div_le_div_right (Nat.le_of_lt h)) heq)
  · rintro (h | ⟨heq, h⟩)
    · exact Nat.lt_of_not_le fun hle => Nat.not_le_of_lt h (Nat.div_le_div_right hle)
    · rw [heq] at hm
      omega

theorem eq_iff_div_mod {m n p : Nat} : m = n ↔ m / p = n / p ∧ m % p = n % p := by
  constructor
  · rintro rfl
    exact ⟨rfl, rfl⟩
  · rintro ⟨hdiv, hmod⟩
    rw [← Nat.div_add_mod m p, hdiv, hmod, Nat.div_add_mod]

/-- Two numbers of one width, with something behind each. -/
theorem pad_append_lt_iff {w m n : Nat} (hm : m < 10 ^ w) (hn : n < 10 ^ w) (s t : List Char) :
    pad w m ++ s < pad w n ++ t ↔ m < n ∨ m = n ∧ s < t := by
  induction w generalizing m n with
  | zero =>
    rw [Nat.pow_zero, Nat.lt_one_iff] at hm hn
    subst hm
    subst hn
    simp [pad]
  | succ w ih =>
    have hpos : 0 < 10 ^ w := Nat.pow_pos (by decide)
    have hdigit {k : Nat} (hk : k < 10 ^ (w + 1)) : k / 10 ^ w < 10 := by
      rw [Nat.pow_succ] at hk
      exact Nat.div_lt_of_lt_mul hk
    rw [pad, pad, List.cons_append, List.cons_append, List.cons_lt_cons_iff, digitChar_lt_iff (hdigit hm) (hdigit hn),
      digitChar_inj (hdigit hm) (hdigit hn), ih (Nat.mod_lt m hpos) (Nat.mod_lt n hpos), @lt_iff_div_mod m n (10 ^ w),
      @eq_iff_div_mod m n (10 ^ w)]
    constructor
    · rintro (h | ⟨h, h' | h'⟩)
      · exact Or.inl (Or.inl h)
      · exact Or.inl (Or.inr ⟨h, h'⟩)
      · exact Or.inr ⟨⟨h, h'.1⟩, h'.2⟩
    · rintro ((h | ⟨h, h'⟩) | ⟨⟨h, h'⟩, hst⟩)
      · exact Or.inl h
      · exact Or.inr ⟨h, Or.inl h'⟩
      · exact Or.inr ⟨h, Or.inr ⟨h', hst⟩⟩

/-- A number in two parts. -/
theorem pad_add {v w n : Nat} (h : n < 10 ^ (v + w)) : pad (v + w) n = pad v (n / 10 ^ w) ++ pad w (n % 10 ^ w) := by
  induction v generalizing n with
  | zero =>
    rw [Nat.zero_add] at h ⊢
    rw [Nat.mod_eq_of_lt h]
    rfl
  | succ v ih =>
    have hparts : 10 ^ (v + w) = 10 ^ w * 10 ^ v := by rw [Nat.add_comm, Nat.pow_add]
    rw [Nat.add_right_comm, pad, pad, List.cons_append, ih (Nat.mod_lt n (Nat.pow_pos (by decide))), hparts,
      ← Nat.div_div_eq_div_mul, Nat.mod_mul_right_div_self, Nat.mod_mul_right_mod]

theorem readPad_pad {w n : Nat} (h : n < 10 ^ w) (s : List Char) : readPad w (pad w n ++ s) = some (n, s) := by
  induction w generalizing n with
  | zero =>
    rw [Nat.pow_zero, Nat.lt_one_iff] at h
    rw [h]
    rfl
  | succ w ih =>
    have hdigit : n / 10 ^ w < 10 := by
      rw [Nat.pow_succ] at h
      exact Nat.div_lt_of_lt_mul h
    have hchar : ∀ d < 10, (Nat.digitChar d).isDigit = true ∧ (Nat.digitChar d).toNat - 48 = d := by decide
    rw [pad, List.cons_append, readPad, if_pos (hchar _ hdigit).1, ih (Nat.mod_lt n (Nat.pow_pos (by decide))), (hchar _ hdigit).2]
    simp only [Option.map_some, Nat.mul_comm, Nat.div_add_mod]

end Text
