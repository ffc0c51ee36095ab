import Llmctl.Value
import Mathlib.Data.List.TakeDrop
import Mathlib.Data.List.TakeWhile

/-!
# Reading JSON

A reader for the texts of `Value`. The fields of an object are kept in the order of the
text, repeated ones too. What `Value.render` writes is read back.
-/

namespace Llmctl.Value

def isJsonSpace (c : Char) : Bool := c = ' ' || c = '\n' || c = '\t' || c = '\r'

def skipSpace (s : List Char) : List Char := s.dropWhile isJsonSpace

/-! ## Strings -/

def unhex (c : Char) : Option Nat :=
  let n := c.toNat
  if 48 ≤ n ∧ n ≤ 57 then some (n - 48)
  else if 97 ≤ n ∧ n ≤ 102 then some (n - 87)
  else if 65 ≤ n ∧ n ≤ 70 then some (n - 55)
  else none

def hex4 : List Char → Option (Nat × List Char)
  | a :: b :: c :: d :: rest => do
    let a ← unhex a
    let b ← unhex b
    let c ← unhex c
    let d ← unhex d
    some (((a * 16 + b) * 16 + c) * 16 + d, rest)
  | _ => none

/-- The character of `\u` and four digits, or of two such escapes for a surrogate pair. -/
def unescapeUnicode (s : List Char) : Option (Char × List Char) := do
  let (n, rest) ← hex4 s
  if 0xD800 ≤ n ∧ n < 0xDC00 then
    match rest with
    | '\\' :: 'u' :: rest =>
      let (m, rest) ← hex4 rest
      if 0xDC00 ≤ m ∧ m < 0xE000 then some (Char.ofNat (0x10000 + (n - 0xD800) * 0x400 + (m - 0xDC00)), rest) else none
    | _ => none
  else if 0xDC00 ≤ n ∧ n < 0xE000 then none
  else some (Char.ofNat n, rest)

/-- The character after a backslash. -/
def unescape : List Char → Option (Char × List Char)
  | [] => none
  | c :: rest =>
    if c = '"' ∨ c = '\\' ∨ c = '/' then some (c, rest)
    else if c = 'b' then some (Char.ofNat 8, rest)
    else if c = 't' then some (Char.ofNat 9, rest)
    else if c = 'n' then some (Char.ofNat 10, rest)
    else if c = 'f' then some (Char.ofNat 12, rest)
    else if c = 'r' then some (Char.ofNat 13, rest)
    else if c = 'u' then unescapeUnicode rest
    else none

/-- A string's characters up to its closing quote. -/
def parseString : Nat → List Char → Option (List Char × List Char)
  | 0, _ => none
  | _ + 1, [] => none
  | fuel + 1, c :: rest =>
    if c = '"' then some ([], rest)
    else if c = '\\' then do
      let (c, rest) ← unescape rest
      let (s, rest) ← parseString fuel rest
      some (c :: s, rest)
    else if c.toNat < 32 then none
    else do
      let (s, rest) ← parseString fuel rest
      some (c :: s, rest)

/-! ## Numbers -/

def parseInt (s : List Char) : Option (List Char × List Char) :=
  match s.span Char.isDigit with
  | ([], _) => none
  | ('0' :: _ :: _, _) => none
  | r => some r

def parseFraction : List Char → Option (List Char × List Char)
  | '.' :: s =>
    match s.span Char.isDigit with
    | ([], _) => none
    | (digits, rest) => some ('.' :: digits, rest)
  | s => some ([], s)

def parseExponent : List Char → Option (List Char × List Char)
  | c :: s =>
    if c = 'e' ∨ c = 'E' then
      let (sign, s) := match s with
        | '+' :: s => (['+'], s)
        | '-' :: s => (['-'], s)
        | s => ([], s)
      match s.span Char.isDigit with
      | ([], _) => none
      | (digits, rest) => some (c :: sign ++ digits, rest)
    else some ([], c :: s)
  | [] => some ([], [])

def parseSign : List Char → List Char × List Char
  | '-' :: s => (['-'], s)
  | s => ([], s)

def parseNumber (s : List Char) : Option (List Char × List Char) := do
  let (sign, s) := parseSign s
  let (int, s) ← parseInt s
  let (fraction, s) ← parseFraction s
  let (exponent, s) ← parseExponent s
  some (sign ++ int ++ fraction ++ exponent, s)

/-! ## Values -/

mutual

/-- A value at the start of the text, and the text after it. -/
def parseValue : Nat → List Char → Option (Value × List Char)
  | 0, _ => none
  | fuel + 1, s =>
    match skipSpace s with
    | '"' :: rest => do
      let (s, rest) ← parseString fuel rest
      some (.string (String.ofList s), rest)
    | '[' :: rest =>
      match skipSpace rest with
      | ']' :: rest => some (.array [], rest)
      | rest => do
        let (items, rest) ← parseItems fuel rest
        some (.array items, rest)
    | '\x7b' :: rest =>
      match skipSpace rest with
      | '\x7d' :: rest => some (.object [], rest)
      | rest => do
        let (fields, rest) ← parseFields fuel rest
        some (.object fields, rest)
    | 'n' :: 'u' :: 'l' :: 'l' :: rest => some (.null, rest)
    | 't' :: 'r' :: 'u' :: 'e' :: rest => some (.bool true, rest)
    | 'f' :: 'a' :: 'l' :: 's' :: 'e' :: rest => some (.bool false, rest)
    | rest => do
      let (text, rest) ← parseNumber rest
      some (.number (String.ofList text), rest)

/-- The items of an array that is not empty, up to its closing bracket. -/
def parseItems : Nat → List Char → Option (List Value × List Char)
  | 0, _ => none
  | fuel + 1, s => do
    let (v, rest) ← parseValue fuel s
    match skipSpace rest with
    | ',' :: rest =>
      let (vs, rest) ← parseItems fuel rest
      some (v :: vs, rest)
    | ']' :: rest => some ([v], rest)
    | _ => none

/-- The fields of an object that is not empty, up to its closing brace. -/
def parseFields : Nat → List Char → Option (List (String × Value) × List Char)
  | 0, _ => none
  | fuel + 1, s =>
    match skipSpace s with
    | '"' :: rest => do
      let (key, rest) ← parseString fuel rest
      match skipSpace rest with
      | ':' :: rest =>
        let (v, rest) ← parseValue fuel rest
        match skipSpace rest with
        | ',' :: rest =>
          let (fields, rest) ← parseFields fuel rest
          some ((String.ofList key, v) :: fields, rest)
        | '\x7d' :: rest => some ([(String.ofList key, v)], rest)
        | _ => none
      | _ => none
    | _ => none

end

/-- `serde_json::from_str` of a text that is one value. -/
def fromStr (text : String) : Option Value :=
  match parseValue (text.toList.length + 1) text.toList with
  | some (v, rest) => if skipSpace rest = [] then some v else none
  | none => none

/-! ## Reading what is written -/

theorem unhex_hexDigit : ∀ n < 16, unhex (hexDigit n) = some n := by decide

theorem hex4_hexDigit (n : Nat) (h : n < 256) (rest : List Char) :
    hex4 ('0' :: '0' :: hexDigit (n / 16) :: hexDigit (n % 16) :: rest) = some (n, rest) := by
  have hhigh := unhex_hexDigit (n / 16) (by omega)
  have hlow := unhex_hexDigit (n % 16) (by omega)
  have hzero : unhex '0' = some 0 := by decide
  have hn : ((0 * 16 + 0) * 16 + n / 16) * 16 + n % 16 = n := by omega
  simp [hex4, hhigh, hlow, hzero]
  omega

theorem ofNat_eq {c : Char} {n : Nat} (h : c.toNat = n) : Char.ofNat n = c := by
  rw [← h, Char.ofNat_toNat]

/-- A character is written as an escape of its own, or as it is. -/
theorem escapeChar_cases (c : Char) :
    (∃ e, escapeChar c = '\\' :: e ∧ ∀ rest, unescape (e ++ rest) = some (c, rest)) ∨
      (escapeChar c = [c] ∧ c ≠ '"' ∧ c ≠ '\\' ∧ ¬ c.toNat < 32) := by
  unfold escapeChar
  split
  · rename_i h
    exact .inl ⟨_, rfl, fun rest => by simp [unescape, h]⟩
  split
  · rename_i h
    exact .inl ⟨_, rfl, fun rest => by simp [unescape, h]⟩
  split
  · rename_i h
    refine .inl ⟨_, rfl, fun rest => ?_⟩
    simp only [unescape, List.cons_append, List.nil_append, Char.reduceEq, or_self, if_false, if_true]
    rw [ofNat_eq h]
  split
  · rename_i h
    refine .inl ⟨_, rfl, fun rest => ?_⟩
    simp only [unescape, List.cons_append, List.nil_append, Char.reduceEq, or_self, if_false, if_true]
    rw [ofNat_eq h]
  split
  · rename_i h
    refine .inl ⟨_, rfl, fun rest => ?_⟩
    simp only [unescape, List.cons_append, List.nil_append, Char.reduceEq, or_self, if_false, if_true]
    rw [ofNat_eq h]
  split
  · rename_i h
    refine .inl ⟨_, rfl, fun rest => ?_⟩
    simp only [unescape, List.cons_append, List.nil_append, Char.reduceEq, or_self, if_false, if_true]
    rw [ofNat_eq h]
  split
  · rename_i h
    refine .inl ⟨_, rfl, fun rest => ?_⟩
    simp only [unescape, List.cons_append, List.nil_append, Char.reduceEq, or_self, if_false, if_true]
    rw [ofNat_eq h]
  split
  · rename_i h
    refine .inl ⟨_, rfl, fun rest => ?_⟩
    have hhex := hex4_hexDigit c.toNat (by omega) rest
    have hlow : ¬ (0xD800 ≤ c.toNat ∧ c.toNat < 0xDC00) := by omega
    have hhigh : ¬ (0xDC00 ≤ c.toNat ∧ c.toNat < 0xE000) := by omega
    simp [unescape, unescapeUnicode, hhex, hlow, hhigh]
  · rename_i hquote hslash _ _ _ _ _ hcontrol
    exact .inr ⟨rfl, hquote, hslash, hcontrol⟩

theorem parseString_escaped (s rest : List Char) (fuel : Nat) (h : s.length < fuel) :
    parseString fuel (s.flatMap escapeChar ++ '"' :: rest) = some (s, rest) := by
  induction s generalizing fuel with
  | nil =>
    cases fuel with
    | zero => cases h
    | succ fuel => simp [parseString]
  | cons c s ih =>
    cases fuel with
    | zero => cases h
    | succ fuel =>
      have hrest := ih fuel (Nat.lt_of_succ_lt_succ h)
      rw [List.flatMap_cons, List.append_assoc]
      rcases escapeChar_cases c with ⟨e, he, hun⟩ | ⟨he, hquote, hslash, hcontrol⟩
      · simp [he, parseString, hun, hrest]
      · simp [he, parseString, hquote, hslash, hcontrol, hrest]

/-! ### Numbers -/

/-- Nothing that would go on with a number. -/
def Ends (rest : List Char) : Prop := ∀ c ∈ rest.head?, c.isDigit = false ∧ c ≠ '.' ∧ c ≠ 'e' ∧ c ≠ 'E'

theorem ends_nil : Ends [] := nofun

theorem span_digits {digits rest : List Char} (hdigits : ∀ c ∈ digits, c.isDigit = true) (hrest : Ends rest) :
    (digits ++ rest).span Char.isDigit = (digits, rest) := by
  rw [List.span_eq_takeWhile_dropWhile, List.takeWhile_append_of_pos hdigits, List.dropWhile_append_of_pos hdigits]
  cases rest with
  | nil => simp
  | cons c rest => simp [(hrest c rfl).1]

theorem parseFraction_ends {rest : List Char} (h : Ends rest) : parseFraction rest = some ([], rest) := by
  unfold parseFraction
  split
  · exact absurd rfl (h '.' rfl).2.1
  · rfl

theorem parseExponent_ends {rest : List Char} (h : Ends rest) : parseExponent rest = some ([], rest) := by
  cases rest with
  | nil => rfl
  | cons c rest =>
    obtain ⟨-, -, he, hE⟩ := h c rfl
    simp [parseExponent, he, hE]

theorem head?_toDigits_append (n : Nat) (rest : List Char) :
    (Nat.toDigits 10 n ++ rest).head? = (Nat.toDigits 10 n).head? := by
  cases h : Nat.toDigits 10 n with
  | nil => exact absurd h Nat.toDigits_ne_nil
  | cons d ds => rfl

theorem toDigits_head {n : Nat} (h : 0 < n) : ∀ c ∈ (Nat.toDigits 10 n).head?, c ≠ '0' := by
  induction n using Nat.strongRecOn with
  | ind n ih =>
    rw [Nat.toDigits_eq_if (by decide)]
    by_cases hlt : n < 10
    · rw [if_pos hlt]
      intro c hc
      have hchar : ∀ m < 10, 0 < m → m.digitChar ≠ '0' := by decide
      obtain rfl : n.digitChar = c := Option.some.inj hc
      exact hchar n hlt h
    · rw [if_neg hlt, head?_toDigits_append]
      exact ih (n / 10) (by omega) (by omega)

theorem parseInt_toDigits (n : Nat) {rest : List Char} (h : Ends rest) :
    parseInt (Nat.toDigits 10 n ++ rest) = some (Nat.toDigits 10 n, rest) := by
  unfold parseInt
  rw [span_digits (fun c hc => Nat.isDigit_of_mem_toDigits (by decide) (by decide) hc) h]
  split
  · rename_i hnil
    exact absurd (Prod.mk.inj hnil).1 Nat.toDigits_ne_nil
  · rename_i hzero
    have hdigits := (Prod.mk.inj hzero).1
    rcases Nat.eq_zero_or_pos n with rfl | hpos
    · cases hdigits
    · exact absurd rfl (toDigits_head hpos '0' (by rw [hdigits]; rfl))
  · rfl

theorem parseSign_digit {s : List Char} (h : ∀ c ∈ s.head?, c.isDigit = true) : parseSign s = ([], s) := by
  unfold parseSign
  split
  · exact absurd (h '-' rfl) (by decide)
  · rfl

theorem parseNumber_nat (n : Nat) {rest : List Char} (h : Ends rest) :
    parseNumber (Nat.toDigits 10 n ++ rest) = some (Nat.toDigits 10 n, rest) := by
  have hsign : parseSign (Nat.toDigits 10 n ++ rest) = ([], Nat.toDigits 10 n ++ rest) := by
    refine parseSign_digit fun c hc => ?_
    rw [head?_toDigits_append] at hc
    exact Nat.isDigit_of_mem_toDigits (by decide) (by decide) (List.mem_of_mem_head? hc)
  simp [parseNumber, hsign, parseInt_toDigits n h, parseFraction_ends h, parseExponent_ends h]

theorem parseNumber_repr (i : Int) {rest : List Char} (h : Ends rest) :
    parseNumber (i.repr.toList ++ rest) = some (i.repr.toList, rest) := by
  rw [Int.repr_eq_if]
  split
  · rw [Nat.toList_repr]
    exact parseNumber_nat i.toNat h
  · have hint := parseInt_toDigits (-i).toNat h
    rw [String.toList_append, Nat.toList_repr]
    simp [parseNumber, parseSign, hint, parseFraction_ends h, parseExponent_ends h]

/-! What was read to the end of a text is read as well with more text after it. -/

theorem span_append {p : Char → Bool} {s t r rest : List Char} (h : s.span p = (t, r))
    (hrest : r = [] → ∀ c ∈ rest.head?, p c = false) : (s ++ rest).span p = (t, r ++ rest) := by
  rw [List.span_eq_takeWhile_dropWhile] at h ⊢
  obtain ⟨ht, hr⟩ := Prod.mk.inj h
  have hs : s = t ++ r := by rw [← ht, ← hr, List.takeWhile_append_dropWhile]
  have hpos : ∀ c ∈ t, p c = true := by
    rw [← ht]
    exact fun c hc => List.mem_takeWhile_imp hc
  have hstop : ∀ c ∈ (r ++ rest).head?, p c = false := by
    cases r with
    | nil => exact hrest rfl
    | cons d r =>
      intro c hc
      obtain rfl : d = c := Option.some.inj hc
      by_contra hd
      have hhead := List.head?_dropWhile_not p s
      rw [hr] at hhead
      exact hd (by simpa using hhead)
  rw [hs, List.append_assoc, List.takeWhile_append_of_pos hpos, List.dropWhile_append_of_pos hpos]
  cases hrr : r ++ rest with
  | nil => simp
  | cons c u =>
    have hc := hstop c (by rw [hrr]; rfl)
    simp [hc]

/-- A text that does not begin with `c` does not begin with it when more text follows. -/
theorem ne_of_append {s rest : List Char} {c : Char} (h : ∀ s', s = c :: s' → False) (hs : s ≠ [])
    (s' : List Char) : s ++ rest = c :: s' → False := by
  intro heq
  cases s with
  | nil => exact hs rfl
  | cons d s =>
    obtain ⟨rfl, -⟩ := List.cons.inj heq
    exact h s rfl

theorem parseSign_append {s t r rest : List Char} (h : parseSign s = (t, r)) (hr : r ≠ []) :
    parseSign (s ++ rest) = (t, r ++ rest) := by
  unfold parseSign at h
  split at h
  · cases h
    rfl
  · rename_i hne
    cases h
    unfold parseSign
    split
    · rename_i heq
      exact (ne_of_append hne hr _ heq).elim
    · rfl

theorem parseInt_append {s t r rest : List Char} (h : parseInt s = some (t, r)) (hrest : r = [] → Ends rest) :
    parseInt (s ++ rest) = some (t, r ++ rest) := by
  unfold parseInt at h ⊢
  cases hspan : s.span Char.isDigit with
  | mk digits left =>
    rw [hspan] at h
    split at h
    · cases h
    · cases h
    · rename_i hnil hzero
      cases h
      rw [span_append hspan fun hl c hc => (hrest hl c hc).1]
      split
      · rename_i heq
        exact (hnil r (by rw [(Prod.mk.inj heq).1])).elim
      · rename_i heq
        exact (hzero _ _ r (by rw [(Prod.mk.inj heq).1])).elim
      · rfl

theorem parseFraction_append {s t r rest : List Char} (h : parseFraction s = some (t, r)) (hrest : r = [] → Ends rest) :
    parseFraction (s ++ rest) = some (t, r ++ rest) := by
  unfold parseFraction at h
  split at h
  · rename_i s
    cases hspan : s.span Char.isDigit with
    | mk digits left =>
      rw [hspan] at h
      cases digits with
      | nil => cases h
      | cons d digits =>
        cases h
        simp only [List.cons_append, parseFraction, span_append hspan fun hl c hc => (hrest hl c hc).1]
  · rename_i hne
    cases h
    by_cases hs : s = []
    · subst hs
      exact parseFraction_ends (hrest rfl)
    · unfold parseFraction
      split
      · rename_i heq
        exact (ne_of_append hne hs _ heq).elim
      · rfl

theorem parseExponent_append {s t r rest : List Char} (h : parseExponent s = some (t, r)) (hrest : r = [] → Ends rest) :
    parseExponent (s ++ rest) = some (t, r ++ rest) := by
  cases s with
  | nil =>
    cases h
    exact parseExponent_ends (hrest rfl)
  | cons c s =>
    simp only [parseExponent, List.cons_append] at h ⊢
    split at h
    · rename_i hc
      rw [if_pos hc]
      have hdigits : ∀ (sign s : List Char), (match s.span Char.isDigit with
            | ([], _) => none
            | (digits, rest) => some (c :: sign ++ digits, rest)) = some (t, r) →
          (match (s ++ rest).span Char.isDigit with
            | ([], _) => none
            | (digits, rest) => some (c :: sign ++ digits, rest)) = some (t, r ++ rest) := by
        intro sign s h
        cases hspan : s.span Char.isDigit with
        | mk digits left =>
          rw [hspan] at h
          cases digits with
          | nil => cases h
          | cons d digits =>
            cases h
            rw [span_append hspan fun hl c hc => (hrest hl c hc).1]
      cases s with
      | nil => cases h
      | cons d s =>
        by_cases hplus : d = '+'
        · subst hplus
          exact hdigits ['+'] s h
        · by_cases hminus : d = '-'
          · subst hminus
            exact hdigits ['-'] s h
          · have hsign : ∀ s, (match d :: s with
                | '+' :: s => (['+'], s)
                | '-' :: s => (['-'], s)
                | s => (([] : List Char), s)) = ([], d :: s) := by
              intro s
              split
              · rename_i heq
                exact absurd (List.cons.inj heq).1 hplus
              · rename_i heq
                exact absurd (List.cons.inj heq).1 hminus
              · rfl
            rw [hsign] at h
            rw [List.cons_append, hsign]
            exact hdigits [] (d :: s) h
    · rename_i hc
      cases h
      rw [if_neg hc]
      rfl

theorem parseNumber_append {s t r rest : List Char} (h : parseNumber s = some (t, r)) (hrest : r = [] → Ends rest) :
    parseNumber (s ++ rest) = some (t, r ++ rest) := by
  unfold parseNumber at h ⊢
  cases hsign : parseSign s with
  | mk sign s₁ =>
    rw [hsign] at h
    obtain ⟨⟨int, s₂⟩, hint, h⟩ := Option.bind_eq_some_iff.mp h
    obtain ⟨⟨fraction, s₃⟩, hfraction, h⟩ := Option.bind_eq_some_iff.mp h
    obtain ⟨⟨exponent, s₄⟩, hexponent, h⟩ := Option.bind_eq_some_iff.mp h
    cases h
    have hs₁ : s₁ ≠ [] := by
      rintro rfl
      cases hint
    have hs₃ : s₃ = [] → Ends rest := by
      rintro rfl
      cases hexponent
      exact hrest rfl
    have hs₂ : s₂ = [] → Ends rest := by
      rintro rfl
      cases hfraction
      exact hs₃ rfl
    rw [parseSign_append hsign hs₁]
    simp [parseInt_append hint hs₂, parseFraction_append hfraction hs₃, parseExponent_append hexponent hrest]

/-! ### Values -/

mutual

/-- Its numbers are integers. -/
def Integral : Value → Prop
  | number text => ∃ i : Int, text = i.repr
  | array items => IntegralItems items
  | object fields => IntegralFields fields
  | _ => True

def IntegralItems : List Value → Prop
  | [] => True
  | v :: vs => v.Integral ∧ IntegralItems vs

def IntegralFields : List (String × Value) → Prop
  | [] => True
  | (_, v) :: fields => v.Integral ∧ IntegralFields fields

end

/-- The text is one JSON number. -/
def isNumber (text : String) : Bool := parseNumber text.toList == some (text.toList, [])

mutual

/-- Its numbers are texts of JSON numbers. -/
def Numeric : Value → Prop
  | number text => isNumber text = true
  | array items => NumericItems items
  | object fields => NumericFields fields
  | _ => True

def NumericItems : List Value → Prop
  | [] => True
  | v :: vs => v.Numeric ∧ NumericItems vs

def NumericFields : List (String × Value) → Prop
  | [] => True
  | (_, v) :: fields => v.Numeric ∧ NumericFields fields

end

theorem isNumber_repr (i : Int) : isNumber i.repr = true := by
  have hnumber := parseNumber_repr i ends_nil
  rw [List.append_nil] at hnumber
  simp [isNumber, hnumber]

mutual

theorem Integral.numeric : ∀ {v : Value}, v.Integral → v.Numeric
  | .null, _ | .bool _, _ | .string _, _ => trivial
  | .number text, h => by
    obtain ⟨i, rfl⟩ := h
    exact isNumber_repr i
  | .array items, h => IntegralItems.numeric items h
  | .object fields, h => IntegralFields.numeric fields h

theorem IntegralItems.numeric : ∀ (vs : List Value), IntegralItems vs → NumericItems vs
  | [], _ => trivial
  | _ :: vs, h => ⟨h.1.numeric, IntegralItems.numeric vs h.2⟩

theorem IntegralFields.numeric : ∀ (fields : List (String × Value)), IntegralFields fields → NumericFields fields
  | [], _ => trivial
  | (_, _) :: fields, h => ⟨h.1.numeric, IntegralFields.numeric fields h.2⟩

end

theorem quote_toList (s : String) : (quote s).toList = '"' :: (s.toList.flatMap escapeChar ++ ['"']) := by
  simp [quote]

@[irreducible] def itemsText (vs : List Value) : List Char := (",".intercalate (renderItems vs)).toList

@[irreducible] def fieldsText (fields : List (String × Value)) : List Char := (",".intercalate (renderFields fields)).toList

theorem render_array (items : List Value) : (array items).render.toList = '[' :: (itemsText items ++ [']']) := by
  simp [render, itemsText]

theorem render_object (fields : List (String × Value)) :
    (object fields).render.toList = '\x7b' :: (fieldsText fields ++ ['\x7d']) := by
  simp [render, fieldsText]

theorem itemsText_one (v : Value) : itemsText [v] = v.render.toList := by
  simp [itemsText, renderItems]

theorem itemsText_cons (v w : Value) (vs : List Value) :
    itemsText (v :: w :: vs) = v.render.toList ++ ',' :: itemsText (w :: vs) := by
  simp [itemsText, renderItems, String.toList_intercalate]

theorem fieldsText_one (key : String) (v : Value) : fieldsText [(key, v)] = (quote key).toList ++ ':' :: v.render.toList := by
  simp [fieldsText, renderFields]

theorem fieldsText_cons (key : String) (v : Value) (field : String × Value) (fields : List (String × Value)) :
    fieldsText ((key, v) :: field :: fields) =
      (quote key).toList ++ ':' :: (v.render.toList ++ ',' :: fieldsText (field :: fields)) := by
  simp [fieldsText, renderFields, String.toList_intercalate]

/-! The text of a value, read with at least as much fuel as it has characters. -/

theorem ends_comma (rest : List Char) : Ends (',' :: rest) := by
  intro c hc
  obtain rfl : ',' = c := Option.some.inj hc
  decide

theorem ends_bracket (rest : List Char) : Ends (']' :: rest) := by
  intro c hc
  obtain rfl : ']' = c := Option.some.inj hc
  decide

theorem ends_brace (rest : List Char) : Ends ('\x7d' :: rest) := by
  intro c hc
  obtain rfl : '\x7d' = c := Option.some.inj hc
  decide

theorem length_escaped (s : List Char) : s.length ≤ (s.flatMap escapeChar).length := by
  induction s with
  | nil => exact Nat.le_refl _
  | cons c s ih =>
    have hpos : 0 < (escapeChar c).length := by
      rcases escapeChar_cases c with ⟨e, he, -⟩ | ⟨he, -⟩ <;> simp [he]
    rw [List.flatMap_cons, List.length_append, List.length_cons]
    omega

theorem length_quote (s : String) : s.toList.length + 2 ≤ (quote s).toList.length := by
  have hlen := length_escaped s.toList
  simp only [quote_toList, List.length_cons, List.length_append, List.length_nil]
  omega

theorem parseValue_string (s : String) {fuel : Nat} (rest : List Char) (h : (quote s).toList.length ≤ fuel) :
    parseValue fuel ((quote s).toList ++ rest) = some (.string s, rest) := by
  rw [quote_toList] at h ⊢
  cases fuel with
  | zero => cases h
  | succ fuel =>
    have hlen := length_escaped s.toList
    simp only [List.length_cons, List.length_append] at h
    have hs := parseString_escaped s.toList rest fuel (by omega)
    simp [parseValue, skipSpace, isJsonSpace, hs]

theorem parseNumber_cons {s t r : List Char} (h : parseNumber s = some (t, r)) :
    ∃ c s', s = c :: s' ∧ (c.isDigit = true ∨ c = '-') := by
  cases s with
  | nil => cases h
  | cons c s =>
    refine ⟨c, s, rfl, ?_⟩
    by_cases hminus : c = '-'
    · exact .inr hminus
    · refine .inl ?_
      by_contra hdigit
      have hsign : parseSign (c :: s) = ([], c :: s) := by
        unfold parseSign
        split
        · rename_i heq
          exact absurd (List.cons.inj heq).1 hminus
        · rfl
      have hint : parseInt (c :: s) = none := by
        unfold parseInt
        rw [List.span_eq_takeWhile_dropWhile, List.takeWhile_cons_of_neg hdigit]
      simp [parseNumber, hsign, hint] at h

theorem isNumber_append {text : String} (h : isNumber text = true) {rest : List Char} (hrest : Ends rest) :
    parseNumber (text.toList ++ rest) = some (text.toList, rest) := by
  have hnumber : parseNumber text.toList = some (text.toList, []) := by simpa [isNumber] using h
  exact parseNumber_append hnumber fun _ => hrest

theorem isNumber_cons {text : String} (h : isNumber text = true) :
    ∃ c s, text.toList = c :: s ∧ (c.isDigit = true ∨ c = '-') := by
  have hnumber : parseNumber text.toList = some (text.toList, []) := by simpa [isNumber] using h
  exact parseNumber_cons hnumber

theorem digit_ne {c : Char} (h : c.isDigit = true ∨ c = '-') :
    isJsonSpace c = false ∧ c ≠ '"' ∧ c ≠ '[' ∧ c ≠ '\x7b' ∧ c ≠ 'n' ∧ c ≠ 't' ∧ c ≠ 'f' := by
  have hne : ∀ d : Char, (d.isDigit = false ∧ d ≠ '-') → c ≠ d := by
    rintro d ⟨hdigit, hsign⟩ rfl
    rcases h with h | h
    · exact absurd h (by simp [hdigit])
    · exact hsign h
  refine ⟨?_, hne _ (by decide), hne _ (by decide), hne _ (by decide), hne _ (by decide), hne _ (by decide), hne _ (by decide)⟩
  simp [isJsonSpace, hne ' ' (by decide), hne '\n' (by decide), hne '\t' (by decide), hne '\r' (by decide)]

theorem skipSpace_cons {c : Char} (s : List Char) (h : isJsonSpace c = false) : skipSpace (c :: s) = c :: s := by
  simp [skipSpace, h]

/-- What begins as a number is read as one. -/
theorem parseValue_digit (fuel : Nat) {c : Char} (s : List Char) (hc : c.isDigit = true ∨ c = '-') :
    parseValue (fuel + 1) (c :: s) = (parseNumber (c :: s)).map fun r => (.number (String.ofList r.1), r.2) := by
  obtain ⟨hspace, hquote, hbracket, hbrace, hn, ht, hf⟩ := digit_ne hc
  unfold parseValue
  rw [skipSpace_cons s hspace]
  split
  · rename_i heq
    exact absurd (List.cons.inj heq).1 hquote
  · rename_i heq
    exact absurd (List.cons.inj heq).1 hbracket
  · rename_i heq
    exact absurd (List.cons.inj heq).1 hbrace
  · rename_i heq
    exact absurd (List.cons.inj heq).1 hn
  · rename_i heq
    exact absurd (List.cons.inj heq).1 ht
  · rename_i heq
    exact absurd (List.cons.inj heq).1 hf
  · cases parseNumber (c :: s) <;> rfl

theorem parseValue_number {text : String} (htext : isNumber text = true) {fuel : Nat} {rest : List Char}
    (hrest : Ends rest) (h : text.toList.length ≤ fuel) :
    parseValue fuel (text.toList ++ rest) = some (.number text, rest) := by
  have hnumber := isNumber_append htext hrest
  have hback : String.ofList text.toList = text := String.ofList_toList
  obtain ⟨c, s, hs, hc⟩ := isNumber_cons htext
  rw [hs] at h hnumber hback ⊢
  cases fuel with
  | zero => cases h
  | succ fuel =>
    rw [List.cons_append] at hnumber ⊢
    rw [parseValue_digit fuel _ hc, hnumber, Option.map_some, hback]

/-- A value's text does not begin with a space or close a bracket. -/
theorem render_cons {v : Value} (h : v.Numeric) :
    ∃ c s, v.render.toList = c :: s ∧ isJsonSpace c = false ∧ c ≠ ']' := by
  cases v with
  | null => exact ⟨'n', "ull".toList, by decide, by decide, by decide⟩
  | bool b => cases b with
    | true => exact ⟨'t', "rue".toList, by decide, by decide, by decide⟩
    | false => exact ⟨'f', "alse".toList, by decide, by decide, by decide⟩
  | number text =>
    obtain ⟨c, s, hs, hc⟩ := isNumber_cons h
    refine ⟨c, s, hs, (digit_ne hc).1, ?_⟩
    rintro rfl
    revert hc
    decide
  | string s => exact ⟨'"', _, quote_toList s, by decide, by decide⟩
  | array items => exact ⟨'[', _, render_array items, by decide, by decide⟩
  | object fields => exact ⟨'\x7b', _, render_object fields, by decide, by decide⟩

theorem itemsText_begins {v : Value} (h : v.Numeric) (vs : List Value) :
    ∃ c s, itemsText (v :: vs) = c :: s ∧ isJsonSpace c = false ∧ c ≠ ']' := by
  obtain ⟨c, s, hs, hspace, hclose⟩ := render_cons h
  cases vs with
  | nil => exact ⟨c, s, by rw [itemsText_one, hs], hspace, hclose⟩
  | cons w vs => exact ⟨c, _, by rw [itemsText_cons, hs]; rfl, hspace, hclose⟩

theorem fieldsText_begins (key : String) (v : Value) (fields : List (String × Value)) :
    ∃ s, fieldsText ((key, v) :: fields) = '"' :: s := by
  cases fields with
  | nil => exact ⟨_, by rw [fieldsText_one, quote_toList]; rfl⟩
  | cons field fields => exact ⟨_, by rw [fieldsText_cons, quote_toList]; rfl⟩

theorem parseValue_bracket (fuel : Nat) {c : Char} {s : List Char} (hspace : isJsonSpace c = false) (hclose : c ≠ ']') :
    parseValue (fuel + 1) ('[' :: c :: s) = (parseItems fuel (c :: s)).map fun r => (array r.1, r.2) := by
  unfold parseValue
  rw [skipSpace_cons _ (by decide)]
  simp only
  rw [skipSpace_cons _ hspace]
  split
  · rename_i heq
    exact absurd (List.cons.inj heq).1 hclose
  · cases parseItems fuel (c :: s) <;> rfl

theorem parseValue_brace (fuel : Nat) (s : List Char) :
    parseValue (fuel + 1) ('\x7b' :: '"' :: s) = (parseFields fuel ('"' :: s)).map fun r => (object r.1, r.2) := by
  unfold parseValue
  rw [skipSpace_cons _ (by decide)]
  simp only
  rw [skipSpace_cons _ (by decide)]
  split
  · rename_i heq
    exact absurd (List.cons.inj heq).1 (by decide)
  · cases parseFields fuel ('"' :: s) <;> rfl

/-- A key that the fuel covers is read, with the value after it. -/
theorem parseFields_key (key : String) {fuel : Nat} {s rest : List Char} {v : Value} {c : Char}
    (h : key.toList.length < fuel) (hv : parseValue fuel s = some (v, c :: rest)) (hc : isJsonSpace c = false) :
    parseFields (fuel + 1) ((quote key).toList ++ ':' :: s) =
      match c :: rest with
      | ',' :: rest => (parseFields fuel rest).map fun r => ((key, v) :: r.1, r.2)
      | '\x7d' :: rest => some ([(key, v)], rest)
      | _ => none := by
  have hstring := parseString_escaped key.toList (':' :: s) fuel h
  rw [quote_toList, List.cons_append, List.append_assoc, List.cons_append, List.nil_append]
  conv_lhs => unfold parseFields
  rw [skipSpace_cons _ (by decide)]
  simp only [hstring, Option.bind_eq_bind, Option.bind_some]
  rw [skipSpace_cons _ (by decide)]
  simp only [hv, Option.bind_some, String.ofList_toList]
  rw [skipSpace_cons _ hc]
  split
  · rename_i rest' _
    cases parseFields fuel rest' <;> rfl
  · rfl
  · rfl

mutual

theorem parseValue_render : ∀ (v : Value) (fuel : Nat) (rest : List Char), v.Numeric → Ends rest →
    v.render.toList.length ≤ fuel → parseValue fuel (v.render.toList ++ rest) = some (v, rest)
  | .null, fuel, rest, _, _, h => by
    cases fuel with
    | zero => simp [render] at h
    | succ fuel => simp [render, parseValue, skipSpace, isJsonSpace]
  | .bool b, fuel, rest, _, _, h => by
    have htext : (bool b).render.toList = if b then "true".toList else "false".toList := by
      cases b <;> rfl
    rw [htext] at h ⊢
    cases fuel with
    | zero => cases b <;> simp at h
    | succ fuel => cases b <;> simp [parseValue, skipSpace, isJsonSpace]
  | .number _, _, _, hv, hrest, h => parseValue_number hv hrest h
  | .string s, fuel, rest, _, _, h => parseValue_string s rest h
  | .array items, fuel, rest, hv, _, h => by
    rw [render_array] at h ⊢
    cases fuel with
    | zero => cases h
    | succ fuel =>
      cases items with
      | nil => simp [itemsText, renderItems, parseValue, skipSpace, isJsonSpace]
      | cons v vs =>
        simp only [List.length_cons, List.length_append, List.length_nil] at h
        have hitems := parseItems_render (v :: vs) fuel rest (by simp) hv (by omega)
        obtain ⟨c, s, hs, hspace, hclose⟩ := itemsText_begins hv.1 vs
        rw [hs] at hitems ⊢
        simp only [List.cons_append, List.append_assoc, List.nil_append] at hitems ⊢
        rw [parseValue_bracket fuel hspace hclose, hitems, Option.map_some]
  | .object fields, fuel, rest, hv, _, h => by
    rw [render_object] at h ⊢
    cases fuel with
    | zero => cases h
    | succ fuel =>
      cases fields with
      | nil => simp [fieldsText, renderFields, parseValue, skipSpace, isJsonSpace]
      | cons field fields =>
        obtain ⟨key, v⟩ := field
        simp only [List.length_cons, List.length_append, List.length_nil] at h
        have hfields := parseFields_render ((key, v) :: fields) fuel rest (by simp) hv (by omega)
        obtain ⟨s, hs⟩ := fieldsText_begins key v fields
        rw [hs] at hfields ⊢
        simp only [List.cons_append, List.append_assoc, List.nil_append] at hfields ⊢
        rw [parseValue_brace, hfields, Option.map_some]

theorem parseItems_render : ∀ (vs : List Value) (fuel : Nat) (rest : List Char), vs ≠ [] → NumericItems vs →
    (itemsText vs).length < fuel → parseItems fuel (itemsText vs ++ ']' :: rest) = some (vs, rest)
  | [], _, _, h, _, _ => absurd rfl h
  | _ :: _, 0, _, _, _, h => absurd h (Nat.not_lt_zero _)
  | [v], fuel + 1, rest, _, hvs, h => by
    rw [itemsText_one] at h ⊢
    have hv := parseValue_render v fuel (']' :: rest) hvs.1 (ends_bracket rest) (Nat.le_of_lt_succ h)
    simp [parseItems, hv, skipSpace_cons, isJsonSpace]
  | v :: w :: vs, fuel + 1, rest, _, hvs, h => by
    rw [itemsText_cons] at h ⊢
    simp only [List.length_append, List.length_cons] at h
    have hv := parseValue_render v fuel (',' :: (itemsText (w :: vs) ++ ']' :: rest)) hvs.1
      (ends_comma _) (by omega)
    have hrest := parseItems_render (w :: vs) fuel rest (by simp) hvs.2 (by omega)
    simp [parseItems, hv, hrest, skipSpace_cons, isJsonSpace]

theorem parseFields_render : ∀ (fields : List (String × Value)) (fuel : Nat) (rest : List Char), fields ≠ [] →
    NumericFields fields → (fieldsText fields).length < fuel →
    parseFields fuel (fieldsText fields ++ '\x7d' :: rest) = some (fields, rest)
  | [], _, _, h, _, _ => absurd rfl h
  | _ :: _, 0, _, _, _, h => absurd h (Nat.not_lt_zero _)
  | [(key, v)], fuel + 1, rest, _, hvs, h => by
    rw [fieldsText_one] at h ⊢
    have hlen := length_quote key
    simp only [List.length_append, List.length_cons] at h
    have hv := parseValue_render v fuel ('\x7d' :: rest) hvs.1 (ends_brace rest) (by omega)
    rw [List.append_assoc, List.cons_append, parseFields_key key (by omega) hv (by decide)]
    rfl
  | (key, v) :: field :: fields, fuel + 1, rest, _, hvs, h => by
    rw [fieldsText_cons] at h ⊢
    have hlen := length_quote key
    simp only [List.length_append, List.length_cons] at h
    have hv := parseValue_render v fuel (',' :: (fieldsText (field :: fields) ++ '\x7d' :: rest)) hvs.1
      (ends_comma _) (by omega)
    have hrest := parseFields_render (field :: fields) fuel rest (by simp) hvs.2 (by omega)
    rw [List.append_assoc, List.cons_append, List.append_assoc, List.cons_append, parseFields_key key (by omega) hv (by decide)]
    simp only [hrest, Option.map_some]

end

theorem fromStr_render {v : Value} (h : v.Numeric) : fromStr v.render = some v := by
  have hparse := parseValue_render v _ [] h ends_nil (Nat.le_succ _)
  rw [List.append_nil] at hparse
  simp [fromStr, hparse, skipSpace]

/-! ### No control characters are written -/

def Printable (s : List Char) : Prop := ∀ c ∈ s, 32 ≤ c.toNat

instance (s : List Char) : Decidable (Printable s) := List.decidableBAll (fun c : Char => 32 ≤ c.toNat) s

theorem printable_append {s t : List Char} (hs : Printable s) (ht : Printable t) : Printable (s ++ t) := by
  intro c hc
  rcases List.mem_append.mp hc with hc | hc
  · exact hs c hc
  · exact ht c hc

theorem printable_cons {c : Char} {s : List Char} (hc : 32 ≤ c.toNat) (hs : Printable s) : Printable (c :: s) :=
  List.forall_mem_cons.mpr ⟨hc, hs⟩

theorem hexDigit_printable : ∀ n < 16, 32 ≤ (hexDigit n).toNat := by decide

theorem escapeChar_printable (c : Char) : Printable (escapeChar c) := by
  unfold escapeChar
  split
  · decide
  split
  · decide
  split
  · decide
  split
  · decide
  split
  · decide
  split
  · decide
  split
  · decide
  split
  · have hprefix : Printable ['\\', 'u', '0', '0'] := by decide
    have hhigh := hexDigit_printable (c.toNat / 16) (by omega)
    have hlow := hexDigit_printable (c.toNat % 16) (by omega)
    exact printable_append hprefix (printable_cons hhigh (printable_cons hlow nofun))
  · rename_i hcontrol
    exact printable_cons (Nat.le_of_not_lt hcontrol) nofun

theorem quote_printable (s : String) : Printable (quote s).toList := by
  rw [quote_toList]
  refine printable_cons (by decide) (printable_append (fun c hc => ?_) (by decide))
  obtain ⟨d, -, hd⟩ := List.mem_flatMap.mp hc
  exact escapeChar_printable d c hd

theorem repr_printable (i : Int) : Printable i.repr.toList := by
  have hdigit : ∀ n : Nat, Printable n.repr.toList := by
    intro n c hc
    rw [Nat.toList_repr] at hc
    have hdigit := Nat.isDigit_of_mem_toDigits (b := 10) (n := n) (by decide) (by decide) hc
    have hlow : '0'.toNat ≤ c.toNat := (Char.isDigit_iff_toNat.mp hdigit).1
    have hzero : '0'.toNat = 48 := by decide
    omega
  rw [Int.repr_eq_if]
  split
  · exact hdigit _
  · rw [String.toList_append]
    exact printable_append (by decide) (hdigit _)

mutual

theorem render_printable : ∀ (v : Value), v.Integral → Printable v.render.toList
  | .null, _ => by decide
  | .bool true, _ => by decide
  | .bool false, _ => by decide
  | .number text, h => by
    obtain ⟨i, rfl⟩ := h
    exact repr_printable i
  | .string s, _ => quote_printable s
  | .array items, h => by
    rw [render_array]
    exact printable_cons (by decide) (printable_append (itemsText_printable items h) (by decide))
  | .object fields, h => by
    rw [render_object]
    exact printable_cons (by decide) (printable_append (fieldsText_printable fields h) (by decide))

theorem itemsText_printable : ∀ (vs : List Value), IntegralItems vs → Printable (itemsText vs)
  | [], _ => by
    have hnil : itemsText [] = [] := by simp [itemsText, renderItems]
    rw [hnil]
    exact nofun
  | [v], h => by
    rw [itemsText_one]
    exact render_printable v h.1
  | v :: w :: vs, h => by
    rw [itemsText_cons]
    exact printable_append (render_printable v h.1) (printable_cons (by decide) (itemsText_printable (w :: vs) h.2))

theorem fieldsText_printable : ∀ (fields : List (String × Value)), IntegralFields fields → Printable (fieldsText fields)
  | [], _ => by
    have hnil : fieldsText [] = [] := by simp [fieldsText, renderFields]
    rw [hnil]
    exact nofun
  | [(key, v)], h => by
    rw [fieldsText_one]
    exact printable_append (quote_printable key) (printable_cons (by decide) (render_printable v h.1))
  | (key, v) :: field :: fields, h => by
    rw [fieldsText_cons]
    exact printable_append (quote_printable key) (printable_cons (by decide) (printable_append (render_printable v h.1)
      (printable_cons (by decide) (fieldsText_printable (field :: fields) h.2))))

end

end Llmctl.Value
