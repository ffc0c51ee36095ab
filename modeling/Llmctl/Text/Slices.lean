import Mathlib.Algebra.Ring.Nat
import Mathlib.Data.List.Basic

/-!
# Slices of a text at byte offsets

A text is cut at an offset in bytes only where a character ends. What is found in a
text starts at such an offset, and an ASCII letter has as many bytes in lower case.
-/

namespace Text

def byteLen (s : List Char) : Nat := (s.map Char.utf8Size).sum

/-- `s[..at]` and `s[at..]`; none where the offset is past the end or inside a character. -/
def sliceAt : List Char → Nat → Option (List Char × List Char)
  | s, 0 => some ([], s)
  | [], _ + 1 => none
  | c :: s, n + 1 => if c.utf8Size ≤ n + 1 then (sliceAt s (n + 1 - c.utf8Size)).map fun (left, right) => (c :: left, right) else none

/-- `s[start..stop]` -/
def slice (s : List Char) (start stop : Nat) : Option (List Char) := do
  let (left, _) ← sliceAt s stop
  let (_, middle) ← sliceAt left start
  pure middle

/-- The offset of the first occurrence of a text. -/
def find (needle : List Char) : List Char → Option Nat
  | [] => if needle.isEmpty then some 0 else none
  | c :: s => if needle.isPrefixOf (c :: s) then some 0 else (find needle s).map (c.utf8Size + ·)

/-- The offset of the last occurrence of a character. -/
def rfindChar (needle : Char) : List Char → Option Nat
  | [] => none
  | c :: s =>
    match rfindChar needle s with
    | some n => some (c.utf8Size + n)
    | none => if c = needle then some 0 else none

@[simp] theorem byteLen_nil : byteLen [] = 0 := rfl

@[simp] theorem byteLen_cons (c : Char) (s : List Char) : byteLen (c :: s) = c.utf8Size + byteLen s := rfl

@[simp] theorem byteLen_append (s t : List Char) : byteLen (s ++ t) = byteLen s + byteLen t := by
  simp [byteLen]

theorem sliceAt_append (s t : List Char) : sliceAt (s ++ t) (byteLen s) = some (s, t) := by
  induction s with
  | nil => cases t <;> rfl
  | cons c s ih =>
    obtain ⟨n, hn⟩ : ∃ n, c.utf8Size + byteLen s = n + 1 := ⟨_, (Nat.succ_pred_eq_of_pos (by have := c.utf8Size_pos; omega)).symm⟩
    rw [List.cons_append, byteLen_cons, hn, sliceAt, if_pos (by omega), ← hn, Nat.add_sub_cancel_left, ih]
    rfl

theorem slice_append (s t u : List Char) : slice (s ++ (t ++ u)) (byteLen s) (byteLen s + byteLen t) = some t := by
  unfold slice
  rw [← byteLen_append, ← List.append_assoc, sliceAt_append]
  simp [sliceAt_append]

/-- What is found stands between characters. -/
theorem find_eq_some {needle s : List Char} {n : Nat} (h : find needle s = some n) :
    ∃ before after, s = before ++ (needle ++ after) ∧ n = byteLen before := by
  induction s generalizing n with
  | nil =>
    unfold find at h
    split at h
    · rename_i hempty
      cases h
      exact ⟨[], [], by rw [List.isEmpty_iff.mp hempty]; rfl, rfl⟩
    · cases h
  | cons c s ih =>
    unfold find at h
    split at h
    · rename_i hstart
      cases h
      obtain ⟨after, hafter⟩ := List.isPrefixOf_iff_prefix.mp hstart
      exact ⟨[], after, hafter.symm, rfl⟩
    · obtain ⟨m, hm, rfl⟩ := Option.map_eq_some_iff.mp h
      obtain ⟨before, after, rfl, rfl⟩ := ih hm
      exact ⟨c :: before, after, rfl, rfl⟩

theorem find_eq_none {c : Char} {s : List Char} (h : find [c] s = none) : c ∉ s := by
  induction s with
  | nil => exact List.not_mem_nil
  | cons d s ih =>
    unfold find at h
    split at h
    · cases h
    · rename_i hstart
      rw [Option.map_eq_none_iff] at h
      simp only [List.isPrefixOf, Bool.and_true, beq_iff_eq] at hstart
      simp only [List.mem_cons, not_or]
      exact ⟨hstart, ih h⟩

/-- Before the first occurrence of a character it does not occur. -/
theorem findChar_eq_some {c : Char} {s : List Char} {n : Nat} (h : find [c] s = some n) :
    ∃ before after, s = before ++ c :: after ∧ c ∉ before ∧ n = byteLen before := by
  induction s generalizing n with
  | nil => cases h
  | cons d s ih =>
    unfold find at h
    by_cases hd : c = d
    · subst hd
      simp only [List.isPrefixOf, beq_self_eq_true, Bool.and_true, if_true] at h
      cases h
      exact ⟨[], s, rfl, List.not_mem_nil, rfl⟩
    · simp only [List.isPrefixOf, Bool.and_true, beq_iff_eq, hd, if_false] at h
      obtain ⟨m, hm, rfl⟩ := Option.map_eq_some_iff.mp h
      obtain ⟨before, after, rfl, hnot, rfl⟩ := ih hm
      refine ⟨d :: before, after, rfl, ?_, rfl⟩
      simp only [List.mem_cons, not_or]
      exact ⟨hd, hnot⟩

theorem rfindChar_eq_none {c : Char} {s : List Char} (h : rfindChar c s = none) : c ∉ s := by
  induction s with
  | nil => exact List.not_mem_nil
  | cons d s ih =>
    unfold rfindChar at h
    split at h
    · cases h
    · rename_i hnone
      split at h
      · cases h
      · rename_i hd
        simp only [List.mem_cons, not_or]
        exact ⟨Ne.symm hd, ih hnone⟩

/-- After the last occurrence of a character it does not occur. -/
theorem rfindChar_eq_some {c : Char} {s : List Char} {n : Nat} (h : rfindChar c s = some n) :
    ∃ before after, s = before ++ c :: after ∧ c ∉ after ∧ n = byteLen before := by
  induction s generalizing n with
  | nil => cases h
  | cons d s ih =>
    unfold rfindChar at h
    split at h
    · rename_i m hm
      cases h
      obtain ⟨before, after, rfl, hnot, rfl⟩ := ih hm
      exact ⟨d :: before, after, rfl, hnot, rfl⟩
    · rename_i hnone
      split at h
      · rename_i hd
        cases h
        exact ⟨[], s, by rw [hd]; rfl, rfindChar_eq_none hnone, rfl⟩
      · cases h

/-! ## Lower case -/

theorem utf8Size_toLower (c : Char) : c.toLower.utf8Size = c.utf8Size := by
  unfold Char.toLower
  split
  · rename_i h
    have hz : c.val.toNat ≤ 90 := UInt32.le_iff_toNat_le.mp h.2
    have hle : c.val ≤ 127 := UInt32.le_iff_toNat_le.mpr (Nat.le_trans hz (by decide))
    have hlower : c.val + 32 ≤ 127 := by
      rw [UInt32.le_iff_toNat_le, UInt32.toNat_add]
      show (c.val.toNat + 32) % 4294967296 ≤ 127
      omega
    simp [Char.utf8Size, hle, hlower]
  · rfl

theorem byteLen_toLower (s : List Char) : byteLen (s.map Char.toLower) = byteLen s := by
  unfold byteLen
  rw [List.map_map]
  congr 1
  exact List.map_congr_left fun c _ => utf8Size_toLower c

/-- What is found in the lower-case copy of a text starts between characters of the text. -/
theorem find_toLower {needle s : List Char} {n : Nat} (h : find needle (s.map Char.toLower) = some n) :
    ∃ before after, s = before ++ after ∧ n = byteLen before := by
  obtain ⟨left, right, hs, rfl⟩ := find_eq_some h
  obtain ⟨before, after, rfl, rfl, -⟩ := List.map_eq_append_iff.mp hs
  exact ⟨before, after, rfl, byteLen_toLower before⟩

end Text
