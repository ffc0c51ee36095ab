import Mathlib.Data.List.Basic
import Llmctl.Text.Utf8

/-!
# Line ends

A line ends with a line feed, with a carriage return or with both. `withCr` puts a carriage
return before each line feed that has none; `withLf` makes a line feed of every line end. Both
go over a text from left to right and know whether a carriage return came last.
-/

namespace Text

section
variable {α : Type} [DecidableEq α] (cr lf : α)

/-- Whether a carriage return comes last, `after` for an empty text. -/
def endsCr : Bool → List α → Bool
  | after, [] => after
  | _, c :: s => endsCr (c = cr) s

def withCr : Bool → List α → List α
  | _, [] => []
  | after, c :: s => if c = lf ∧ after = false then cr :: lf :: withCr false s else c :: withCr (c = cr) s

def withLf : Bool → List α → List α
  | _, [] => []
  | after, c :: s =>
    if c = lf then if after then withLf false s else lf :: withLf false s
    else if c = cr then lf :: withLf true s
    else c :: withLf false s

/-- `withCr` of a text in pieces. -/
def withCrPieces : Bool → List (List α) → List (List α)
  | _, [] => []
  | after, piece :: pieces => withCr cr lf after piece :: withCrPieces (endsCr cr after piece) pieces

theorem endsCr_append (after : Bool) (s t : List α) : endsCr cr after (s ++ t) = endsCr cr (endsCr cr after s) t := by
  induction s generalizing after with
  | nil => rfl
  | cons c s ih => exact ih _

variable {cr lf} (hne : cr ≠ lf)

include hne in
theorem withCr_append (after : Bool) (s t : List α) :
    withCr cr lf after (s ++ t) = withCr cr lf after s ++ withCr cr lf (endsCr cr after s) t := by
  induction s generalizing after with
  | nil => rfl
  | cons c s ih =>
    rw [List.cons_append, withCr, withCr, endsCr]
    by_cases h : c = lf ∧ after = false
    · have hlf : decide (c = cr) = false := by
        rw [h.1]
        exact decide_eq_false hne.symm
      rw [if_pos h, if_pos h, ih, hlf]
      rfl
    · rw [if_neg h, if_neg h, ih]
      rfl

include hne in
theorem withLf_append (after : Bool) (s t : List α) :
    withLf cr lf after (s ++ t) = withLf cr lf after s ++ withLf cr lf (endsCr cr after s) t := by
  induction s generalizing after with
  | nil => rfl
  | cons c s ih =>
    rw [List.cons_append, withLf, withLf, endsCr]
    by_cases hlf : c = lf
    · have hcr : decide (c = cr) = false := by
        rw [hlf]
        exact decide_eq_false hne.symm
      rw [if_pos hlf, if_pos hlf, ih, hcr]
      cases after <;> rfl
    · rw [if_neg hlf, if_neg hlf]
      by_cases hcr : c = cr
      · rw [if_pos hcr, if_pos hcr, ih, decide_eq_true hcr]
        rfl
      · rw [if_neg hcr, if_neg hcr, ih, decide_eq_false hcr]
        rfl

include hne in
/-- A carriage return more does not change where the lines end. -/
theorem withLf_withCr (after : Bool) (s : List α) : withLf cr lf after (withCr cr lf after s) = withLf cr lf after s := by
  induction s generalizing after with
  | nil => rfl
  | cons c s ih =>
    rw [withCr]
    by_cases h : c = lf ∧ after = false
    · obtain ⟨rfl, rfl⟩ := h
      simp [withLf, hne, ih]
    · rw [if_neg h, withLf, withLf]
      by_cases hlf : c = lf
      · have hcr : decide (c = cr) = false := by
          rw [hlf]
          exact decide_eq_false hne.symm
        rw [if_pos hlf, if_pos hlf, hcr, ih]
      · by_cases hcr : c = cr
        · rw [if_neg hlf, if_neg hlf, if_pos hcr, if_pos hcr, decide_eq_true hcr, ih]
        · rw [if_neg hlf, if_neg hlf, if_neg hcr, if_neg hcr, decide_eq_false hcr, ih]

end

/-! ## Bytes -/

/-- A byte that continues a character is no line end. -/
theorem continuation_ne {c : UInt8} (h : isContinuation c = true) : c ≠ 13 ∧ c ≠ 10 := by
  constructor <;> rintro rfl <;> cases h

theorem withCr_of_ne {after : Bool} {c : UInt8} (h : c ≠ 13 ∧ c ≠ 10) (rest : List UInt8) :
    withCr 13 10 after (c :: rest) = c :: withCr 13 10 false rest := by
  rw [withCr, if_neg fun hlf => h.2 hlf.1, decide_eq_false h.1]

theorem stopsAlike_withCr : StopsAlike (withCr 13 10 false) where
  cons c rest hc := withCr_of_ne (continuation_ne hc) rest
  stop rest h := by
    cases rest with
    | nil => exact nofun
    | cons c rest =>
      intro d hd
      rw [withCr] at hd
      split at hd
      · cases hd
        decide
      · cases hd
        exact h c rfl

theorem endsCr_continuation (n bits : Nat) (rest : List UInt8) :
    endsCr 13 false (continuation n bits rest).2 = endsCr 13 false rest := by
  induction n generalizing bits rest with
  | zero => rfl
  | succ n ih =>
    cases rest with
    | nil => rfl
    | cons c rest =>
      rw [continuation]
      split
      · rename_i hc
        rw [ih, endsCr, decide_eq_false (continuation_ne hc).1]
      · rfl

theorem endsCr_nextChar {b : UInt8} (hb : ¬ b < 0x80) (rest : List UInt8) :
    endsCr 13 false (nextChar b rest).2 = endsCr 13 false rest := by
  by_cases hin : ∃ l c more, lead b = some l ∧ rest = c :: more ∧ l.low ≤ c ∧ c ≤ l.high
  · obtain ⟨l, c, more, hl, rfl, hc⟩ := hin
    have hcont := continuation_ne (StopsAlike.lead_continuation hl hc)
    rw [StopsAlike.nextChar_in hb hl hc, endsCr_continuation, endsCr, decide_eq_false hcont.1]
  · rw [StopsAlike.nextChar_out hb]
    intro l hl c hc hrange
    obtain ⟨more, rfl⟩ := List.head?_eq_some_iff.mp hc
    exact hin ⟨l, c, more, hl, rfl, hrange⟩

theorem continuation_ge {n bits v : Nat} {rest : List UInt8} (h : (continuation n bits rest).1 = some v) : bits ≤ v := by
  induction n generalizing bits rest with
  | zero => exact Nat.le_of_eq (Option.some.inj h)
  | succ n ih =>
    cases rest with
    | nil => cases h
    | cons c rest =>
      rw [continuation] at h
      split at h
      · have := ih h
        omega
      · cases h

/-- The first two bytes of a longer character say more than any line end does. -/
theorem lead_bits {b c : UInt8} {l : Lead} (h : lead b = some l) (hc : l.low ≤ c) :
    16 ≤ l.bits * 64 + (c.toNat - 0x80) := by
  unfold lead at h
  repeat' split at h
  all_goals cases h
  all_goals
    simp only [UInt8.le_iff_toNat_le, UInt8.reduceToNat] at *
    omega

theorem ofNat_ne {v : Nat} (h : v ≠ 13 ∧ v ≠ 10) : Char.ofNat v ≠ '\r' ∧ Char.ofNat v ≠ '\n' := by
  have htoNat : (Char.ofNat v).toNat = v ∨ (Char.ofNat v).toNat = 0 := by
    by_cases hvalid : v.isValidChar
    · exact .inl (congrArg Char.toNat (dif_pos hvalid))
    · exact .inr (congrArg Char.toNat (dif_neg hvalid))
  constructor
  · intro heq
    rw [heq] at htoNat
    exact htoNat.elim (fun hv => h.1 hv.symm) (by decide)
  · intro heq
    rw [heq] at htoNat
    exact htoNat.elim (fun hv => h.2 hv.symm) (by decide)

theorem nextChar_ne {b : UInt8} (hb : ¬ b < 0x80) (rest : List UInt8) :
    (nextChar b rest).1 ≠ '\r' ∧ (nextChar b rest).1 ≠ '\n' := by
  have hreplacement : replacementChar ≠ '\r' ∧ replacementChar ≠ '\n' := by decide
  by_cases hin : ∃ l c more, lead b = some l ∧ rest = c :: more ∧ l.low ≤ c ∧ c ≤ l.high
  · obtain ⟨l, c, more, hl, rfl, hc⟩ := hin
    rw [StopsAlike.nextChar_in hb hl hc]
    dsimp only
    cases hbits : (continuation (l.more - 1) (l.bits * 64 + (c.toNat - 0x80)) more).1 with
    | none => exact hreplacement
    | some v =>
      have hlow := Nat.le_trans (lead_bits hl hc.1) (continuation_ge hbits)
      exact ofNat_ne (by omega)
  · rw [StopsAlike.nextChar_out hb]
    · exact hreplacement
    · intro l hl c hc hrange
      obtain ⟨more, rfl⟩ := List.head?_eq_some_iff.mp hc
      exact hin ⟨l, c, more, hl, rfl, hrange⟩

theorem withCr_char_of_ne {after : Bool} {c : Char} (h : c ≠ '\r' ∧ c ≠ '\n') (s : List Char) :
    withCr '\r' '\n' after (c :: s) = c :: withCr '\r' '\n' false s := by
  rw [withCr, if_neg fun hlf => h.2 hlf.1, decide_eq_false h.1]

theorem ascii_ne {b : UInt8} (h : b ≠ 13 ∧ b ≠ 10) : Char.ofNat b.toNat ≠ '\r' ∧ Char.ofNat b.toNat ≠ '\n' := by
  refine ofNat_ne ⟨fun heq => h.1 (UInt8.toNat_inj.mp heq), fun heq => h.2 (UInt8.toNat_inj.mp heq)⟩

/-- The bytes and their text have the same line ends. -/
theorem lossy_withCr (after : Bool) (bytes : List UInt8) :
    lossy (withCr 13 10 after bytes) = withCr '\r' '\n' after (lossy bytes) ∧
      endsCr '\r' after (lossy bytes) = endsCr 13 after bytes := by
  induction hn : bytes.length using Nat.strongRecOn generalizing after bytes with
  | ind n ih =>
    cases bytes with
    | nil => exact ⟨rfl, rfl⟩
    | cons b rest =>
      simp only [List.length_cons] at hn
      by_cases hb : b < 0x80
      · obtain ⟨hfalse, hends⟩ := ih rest.length (by omega) false rest rfl
        by_cases hlf : b = 10
        · subst hlf
          cases after with
          | false =>
            have hcr : withCr 13 10 false (10 :: rest) = 13 :: 10 :: withCr 13 10 false rest := rfl
            rw [hcr, lossy_cons, nextChar_ascii (by decide), lossy_cons, nextChar_ascii (by decide), lossy_cons,
              nextChar_ascii (by decide), hfalse]
            exact ⟨rfl, hends⟩
          | true =>
            have hcr : withCr 13 10 true (10 :: rest) = 10 :: withCr 13 10 false rest := rfl
            rw [hcr, lossy_cons, nextChar_ascii (by decide), lossy_cons, nextChar_ascii (by decide), hfalse]
            exact ⟨rfl, hends⟩
        · by_cases hcr : b = 13
          · subst hcr
            obtain ⟨htrue, hends⟩ := ih rest.length (by omega) true rest rfl
            have hkeep : withCr 13 10 after (13 :: rest) = 13 :: withCr 13 10 true rest := rfl
            rw [hkeep, lossy_cons, nextChar_ascii (by decide), lossy_cons, nextChar_ascii (by decide), htrue]
            exact ⟨rfl, hends⟩
          · have hchar := ascii_ne ⟨hcr, hlf⟩
            rw [withCr_of_ne ⟨hcr, hlf⟩, lossy_cons, nextChar_ascii hb, lossy_cons, nextChar_ascii hb,
              withCr_char_of_ne hchar, endsCr, endsCr, decide_eq_false hchar.1, decide_eq_false hcr, hfalse]
            exact ⟨rfl, hends⟩
      · have hlen := nextChar_length b rest
        obtain ⟨hlossy, hends⟩ := ih (nextChar b rest).2.length (by omega) false (nextChar b rest).2 rfl
        have hne : b ≠ 13 ∧ b ≠ 10 := by constructor <;> rintro rfl <;> exact hb (by decide)
        have hchar := nextChar_ne hb rest
        rw [withCr_of_ne hne, lossy_cons, stopsAlike_withCr.nextChar_eq, lossy_cons, withCr_char_of_ne hchar, endsCr,
          endsCr, decide_eq_false hchar.1, decide_eq_false hne.1, ← endsCr_nextChar hb, hlossy]
        exact ⟨rfl, hends⟩

end Text
