import Mathlib.Data.List.Basic

/-!
# Text from bytes that may not be UTF-8

`lossy` puts one replacement character for each longest start of a character that the
bytes do not complete. A cut before a byte that continues no character makes no difference,
and neither does a longer line end: both stop a character alike.
-/

namespace Text

def replacementChar : Char := Char.ofNat 0xFFFD

def isContinuation (b : UInt8) : Bool := 0x80 ≤ b && b ≤ 0xBF

/-- What the first byte of a character says: how many bytes follow it, its bits of the
character and the range of the byte after it. -/
structure Lead where
  more : Nat
  bits : Nat
  low : UInt8
  high : UInt8

def lead (b : UInt8) : Option Lead :=
  if 0xC2 ≤ b ∧ b ≤ 0xDF then some ⟨1, b.toNat - 0xC0, 0x80, 0xBF⟩
  else if b = 0xE0 then some ⟨2, 0, 0xA0, 0xBF⟩
  else if b = 0xED then some ⟨2, 0xD, 0x80, 0x9F⟩
  else if 0xE1 ≤ b ∧ b ≤ 0xEF then some ⟨2, b.toNat - 0xE0, 0x80, 0xBF⟩
  else if b = 0xF0 then some ⟨3, 0, 0x90, 0xBF⟩
  else if 0xF1 ≤ b ∧ b ≤ 0xF3 then some ⟨3, b.toNat - 0xF0, 0x80, 0xBF⟩
  else if b = 0xF4 then some ⟨3, 4, 0x80, 0x8F⟩
  else none

/-- The bits of `n` bytes added to `bits`, unless there are fewer, and the bytes after them. -/
def continuation : Nat → Nat → List UInt8 → Option Nat × List UInt8
  | 0, bits, rest => (some bits, rest)
  | _ + 1, _, [] => (none, [])
  | n + 1, bits, c :: rest =>
    if isContinuation c then continuation n (bits * 64 + (c.toNat - 0x80)) rest else (none, c :: rest)

/-- The character that begins with `b`, and the bytes after it. -/
def nextChar (b : UInt8) (rest : List UInt8) : Char × List UInt8 :=
  if b < 0x80 then (Char.ofNat b.toNat, rest)
  else
    match lead b with
    | none => (replacementChar, rest)
    | some l =>
      match rest with
      | [] => (replacementChar, [])
      | c :: more =>
        if l.low ≤ c ∧ c ≤ l.high then
          let (bits, after) := continuation (l.more - 1) (l.bits * 64 + (c.toNat - 0x80)) more
          ((bits.map Char.ofNat).getD replacementChar, after)
        else (replacementChar, rest)

def lossyWithin : Nat → List UInt8 → List Char
  | 0, _ | _ + 1, [] => []
  | fuel + 1, b :: rest => (nextChar b rest).1 :: lossyWithin fuel (nextChar b rest).2

/-- `String::from_utf8_lossy` -/
def lossy (bytes : List UInt8) : List Char := lossyWithin bytes.length bytes

example : lossy [0x61, 0xC3, 0xA9, 0xE3, 0x80, 0x80, 0xE3, 0x80, 0x62] = ['a', 'é', '\u3000', '\uFFFD', 'b'] := by decide

/-! ## One character -/

theorem continuation_length (n bits : Nat) (rest : List UInt8) : (continuation n bits rest).2.length ≤ rest.length := by
  induction n generalizing bits rest with
  | zero => exact Nat.le_refl _
  | succ n ih =>
    cases rest with
    | nil => exact Nat.le_refl _
    | cons c rest =>
      rw [continuation]
      split
      · exact Nat.le_trans (ih _ _) (Nat.le_succ _)
      · exact Nat.le_refl _

theorem nextChar_length (b : UInt8) (rest : List UInt8) : (nextChar b rest).2.length ≤ rest.length := by
  unfold nextChar
  split
  · exact Nat.le_refl _
  · split
    · exact Nat.le_refl _
    · split
      · exact Nat.le_refl _
      · split
        · exact Nat.le_trans (continuation_length _ _ _) (Nat.le_succ _)
        · exact Nat.le_refl _

theorem lossyWithin_eq {fuel : Nat} {bytes : List UInt8} (h : bytes.length ≤ fuel) : lossyWithin fuel bytes = lossy bytes := by
  induction fuel using Nat.strongRecOn generalizing bytes with
  | ind fuel ih =>
    cases bytes with
    | nil => cases fuel <;> rfl
    | cons b rest =>
      obtain ⟨fuel, rfl⟩ := Nat.exists_eq_succ_of_ne_zero (Nat.ne_of_gt (Nat.lt_of_lt_of_le (Nat.succ_pos _) h))
      have hlen := nextChar_length b rest
      simp only [List.length_cons, Nat.succ_eq_add_one] at h
      unfold lossy
      simp only [List.length_cons, lossyWithin]
      rw [ih fuel (Nat.lt_succ_self _) (by omega)]
      by_cases hfuel : rest.length < fuel + 1
      · by_cases heq : rest.length = fuel
        · rw [heq, ih fuel (Nat.lt_succ_self _) (by omega)]
        · rw [ih rest.length (by omega) hlen]
      · omega

theorem lossy_cons (b : UInt8) (rest : List UInt8) :
    lossy (b :: rest) = (nextChar b rest).1 :: lossy (nextChar b rest).2 := by
  rw [← lossyWithin_eq (nextChar_length b rest)]
  rfl

theorem nextChar_ascii {b : UInt8} (h : b < 0x80) (rest : List UInt8) : nextChar b rest = (Char.ofNat b.toNat, rest) :=
  if_pos h

theorem lossy_ascii {bytes : List UInt8} (h : ∀ b ∈ bytes, b < 0x80) :
    lossy bytes = bytes.map fun b => Char.ofNat b.toNat := by
  induction bytes with
  | nil => rfl
  | cons b bytes ih =>
    rw [lossy_cons, nextChar_ascii (h b (List.mem_cons_self ..)), List.map_cons,
      ih fun b hmem => h b (List.mem_cons_of_mem _ hmem)]

/-! ## Bytes that end a character alike -/

/-- Bytes that agree up to where a character stops, and are related from there on. -/
structure StopsAlike (f : List UInt8 → List UInt8) : Prop where
  cons : ∀ c rest, isContinuation c = true → f (c :: rest) = c :: f rest
  stop : ∀ rest, (∀ c ∈ rest.head?, isContinuation c = false) → ∀ c ∈ (f rest).head?, isContinuation c = false

namespace StopsAlike

variable {f : List UInt8 → List UInt8} (hf : StopsAlike f)

theorem continuation_stop {n bits : Nat} {rest : List UInt8} (h : ∀ c ∈ rest.head?, isContinuation c = false) :
    continuation (n + 1) bits rest = (none, rest) := by
  cases rest with
  | nil => rfl
  | cons c rest => rw [continuation, if_neg (by rw [h c rfl]; exact Bool.false_ne_true)]

include hf in
theorem continuation_eq (n bits : Nat) (rest : List UInt8) :
    continuation n bits (f rest) = ((continuation n bits rest).1, f (continuation n bits rest).2) := by
  induction n generalizing bits rest with
  | zero => rfl
  | succ n ih =>
    by_cases hstop : ∀ c ∈ rest.head?, isContinuation c = false
    · rw [continuation_stop hstop, continuation_stop (hf.stop rest hstop)]
    · cases rest with
      | nil => exact absurd nofun hstop
      | cons c rest =>
        have hc : isContinuation c = true := by simpa using hstop
        rw [hf.cons c rest hc, continuation, if_pos hc, ih, continuation, if_pos hc]

theorem lead_continuation {b c : UInt8} {l : Lead} (h : lead b = some l) (hc : l.low ≤ c ∧ c ≤ l.high) :
    isContinuation c = true := by
  have hrange : 0x80 ≤ l.low ∧ l.high ≤ 0xBF := by
    revert h
    unfold lead
    repeat' split
    all_goals
      rintro ⟨⟩
    all_goals
      dsimp only
      decide
  simp only [isContinuation, Bool.and_eq_true, decide_eq_true_eq]
  exact ⟨UInt8.le_trans hrange.1 hc.1, UInt8.le_trans hc.2 hrange.2⟩

theorem nextChar_out {b : UInt8} (hb : ¬ b < 0x80) {rest : List UInt8}
    (h : ∀ l ∈ lead b, ∀ c ∈ rest.head?, ¬ (l.low ≤ c ∧ c ≤ l.high)) : nextChar b rest = (replacementChar, rest) := by
  unfold nextChar
  rw [if_neg hb]
  cases hl : lead b with
  | none => rfl
  | some l =>
    cases rest with
    | nil => rfl
    | cons c rest => exact if_neg (h l hl c rfl)

theorem nextChar_in {b c : UInt8} (hb : ¬ b < 0x80) {l : Lead} (hl : lead b = some l) (hc : l.low ≤ c ∧ c ≤ l.high)
    (rest : List UInt8) : nextChar b (c :: rest) =
      (((continuation (l.more - 1) (l.bits * 64 + (c.toNat - 0x80)) rest).1.map Char.ofNat).getD replacementChar,
        (continuation (l.more - 1) (l.bits * 64 + (c.toNat - 0x80)) rest).2) := by
  unfold nextChar
  rw [if_neg hb, hl]
  exact if_pos hc

include hf in
theorem nextChar_eq (b : UInt8) (rest : List UInt8) :
    nextChar b (f rest) = ((nextChar b rest).1, f (nextChar b rest).2) := by
  by_cases hb : b < 0x80
  · rw [nextChar_ascii hb, nextChar_ascii hb]
  by_cases hin : ∃ l c more, lead b = some l ∧ rest = c :: more ∧ l.low ≤ c ∧ c ≤ l.high
  · obtain ⟨l, c, more, hl, rfl, hc⟩ := hin
    rw [hf.cons c more (lead_continuation hl hc), nextChar_in hb hl hc, nextChar_in hb hl hc, hf.continuation_eq]
  · have hout : ∀ l ∈ lead b, ∀ c ∈ rest.head?, ¬ (l.low ≤ c ∧ c ≤ l.high) := by
      intro l hl c hc hrange
      obtain ⟨more, rfl⟩ := List.head?_eq_some_iff.mp hc
      exact hin ⟨l, c, more, hl, rfl, hrange⟩
    have hout' : ∀ l ∈ lead b, ∀ c ∈ (f rest).head?, ¬ (l.low ≤ c ∧ c ≤ l.high) := by
      intro l hl c hc hrange
      by_cases hstop : ∀ c ∈ rest.head?, isContinuation c = false
      · have hno := hf.stop rest hstop c hc
        rw [lead_continuation hl hrange] at hno
        cases hno
      · cases rest with
        | nil => exact hstop nofun
        | cons d more =>
          have hd : isContinuation d = true := by simpa using hstop
          rw [hf.cons d more hd] at hc
          cases hc
          exact hout l hl _ rfl hrange
    rw [nextChar_out hb hout, nextChar_out hb hout']

end StopsAlike

/-! ## Cuts -/

/-- A cut before a byte that continues no character. -/
theorem lossy_append (xs : List UInt8) {ys : List UInt8} (h : ∀ c ∈ ys.head?, isContinuation c = false) :
    lossy (xs ++ ys) = lossy xs ++ lossy ys := by
  have hstops : StopsAlike fun rest => rest ++ ys := by
    refine ⟨fun c rest _ => rfl, fun rest hrest => ?_⟩
    cases rest with
    | nil => exact h
    | cons c rest => exact hrest
  induction hn : xs.length using Nat.strongRecOn generalizing xs with
  | ind n ih =>
    cases xs with
    | nil => rfl
    | cons b xs =>
      have hlen := nextChar_length b xs
      rw [List.cons_append, lossy_cons, hstops.nextChar_eq, lossy_cons, List.cons_append]
      simp only [List.length_cons] at hn
      rw [ih (nextChar b xs).2.length (by omega) _ rfl]

/-- The pieces of a text give the text where none but the first begins within a character. -/
theorem lossy_flatten : ∀ {chunks : List (List UInt8)}, (∀ chunk ∈ chunks, ∀ c ∈ chunk.head?, isContinuation c = false) →
    (chunks.map lossy).flatten = lossy chunks.flatten
  | [], _ => rfl
  | chunk :: chunks, h => by
    have hrest := fun chunk' hmem => h chunk' (List.mem_cons_of_mem _ hmem)
    rw [List.map_cons, List.flatten_cons, List.flatten_cons, lossy_flatten hrest, lossy_append]
    intro c hc
    have hflat : ∀ {chunks : List (List UInt8)}, (∀ chunk ∈ chunks, ∀ c ∈ chunk.head?, isContinuation c = false) →
        ∀ c ∈ chunks.flatten.head?, isContinuation c = false := by
      intro chunks hchunks c hc
      induction chunks with
      | nil => cases hc
      | cons chunk chunks ih =>
        cases chunk with
        | nil => exact ih (fun chunk' hmem => hchunks chunk' (List.mem_cons_of_mem _ hmem)) hc
        | cons d chunk => exact hchunks _ (List.mem_cons_self ..) c hc
    exact hflat hrest c hc

end Text
