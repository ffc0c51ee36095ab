import Llmctl.Text.Json

/-!
# JSON over several lines

`serde_json` also writes each item and each field on a line of its own, two spaces further
in than the bracket before it. Such a text is read as the value that was written.
-/

namespace Llmctl.Value

def newline (depth : Nat) : List Char := '\n' :: List.replicate (2 * depth) ' '

mutual

def prettyText : Nat → Value → List Char
  | depth, array items => '[' :: (prettyItems (depth + 1) true items ++ (if items.isEmpty then [] else newline depth) ++ [']'])
  | depth, object fields =>
    '\x7b' :: (prettyFields (depth + 1) true fields ++ (if fields.isEmpty then [] else newline depth) ++ ['\x7d'])
  | _, null => null.render.toList
  | _, bool b => (bool b).render.toList
  | _, number text => text.toList
  | _, string s => (quote s).toList

/-- `first` where no item of the array stands before these. -/
def prettyItems : Nat → Bool → List Value → List Char
  | _, _, [] => []
  | depth, first, v :: vs =>
    (if first then newline depth else ',' :: newline depth) ++ (prettyText depth v ++ prettyItems depth false vs)

def prettyFields : Nat → Bool → List (String × Value) → List Char
  | _, _, [] => []
  | depth, first, (key, v) :: fields =>
    (if first then newline depth else ',' :: newline depth) ++
      ((quote key).toList ++ ':' :: ' ' :: (prettyText depth v ++ prettyFields depth false fields))

end

def pretty (v : Value) : String := String.ofList (prettyText 0 v)

/-! ## Spaces -/

theorem skipSpace_newline (depth : Nat) (s : List Char) : skipSpace (newline depth ++ s) = skipSpace s := by
  have hspaces : ∀ n, skipSpace (List.replicate n ' ' ++ s) = skipSpace s := by
    intro n
    induction n with
    | zero => rfl
    | succ n ih =>
      rw [List.replicate_succ, List.cons_append]
      exact ih
  exact hspaces (2 * depth)

theorem skipSpace_blank (s : List Char) : skipSpace (' ' :: s) = skipSpace s := rfl

theorem skipSpace_idem (s : List Char) : skipSpace (skipSpace s) = skipSpace s := by
  induction s with
  | nil => rfl
  | cons c s ih =>
    by_cases hc : isJsonSpace c = true
    · simpa [skipSpace, hc] using ih
    · simp [skipSpace, hc]

theorem ends_newline (depth : Nat) (s : List Char) : Ends (newline depth ++ s) := by
  intro c hc
  obtain rfl : '\n' = c := Option.some.inj hc
  decide

theorem parseValue_skip {s t : List Char} (h : skipSpace s = skipSpace t) (fuel : Nat) : parseValue fuel s = parseValue fuel t := by
  cases fuel with
  | zero => rfl
  | succ fuel =>
    unfold parseValue
    rw [h]

theorem parseItems_skip {s t : List Char} (h : skipSpace s = skipSpace t) (fuel : Nat) : parseItems fuel s = parseItems fuel t := by
  cases fuel with
  | zero => rfl
  | succ fuel =>
    unfold parseItems
    rw [parseValue_skip h]

theorem parseFields_skip {s t : List Char} (h : skipSpace s = skipSpace t) (fuel : Nat) :
    parseFields fuel s = parseFields fuel t := by
  cases fuel with
  | zero => rfl
  | succ fuel =>
    unfold parseFields
    rw [h]

/-! ## Brackets -/

/-- The array of the items that stand after a bracket and perhaps a space. -/
theorem parseValue_items (fuel : Nat) {s t : List Char} {c : Char} (hs : skipSpace s = c :: t) (hclose : c ≠ ']') :
    parseValue (fuel + 1) ('[' :: s) = (parseItems fuel s).map fun r => (array r.1, r.2) := by
  have hskip : parseItems fuel s = parseItems fuel (c :: t) := parseItems_skip (by rw [← hs, skipSpace_idem]) fuel
  rw [hskip]
  unfold parseValue
  rw [skipSpace_cons _ (by decide)]
  simp only [hs]
  split
  · rename_i heq
    exact absurd (List.cons.inj heq).1 hclose
  · cases parseItems fuel (c :: t) <;> rfl

theorem parseValue_fields (fuel : Nat) {s t : List Char} (hs : skipSpace s = '"' :: t) :
    parseValue (fuel + 1) ('\x7b' :: s) = (parseFields fuel s).map fun r => (object r.1, r.2) := by
  have hskip : parseFields fuel s = parseFields fuel ('"' :: t) := parseFields_skip (by rw [← hs, skipSpace_idem]) fuel
  rw [hskip]
  unfold parseValue
  rw [skipSpace_cons _ (by decide)]
  simp only [hs]
  split
  · rename_i heq
    exact absurd (List.cons.inj heq).1 (by decide)
  · cases parseFields fuel ('"' :: t) <;> rfl

/-- An item, and what the text after it goes on with. -/
theorem parseItems_item {fuel : Nat} {s rest t : List Char} {v : Value} (hv : parseValue fuel s = some (v, rest)) :
    (skipSpace rest = ',' :: t → parseItems (fuel + 1) s = (parseItems fuel t).map fun r => (v :: r.1, r.2)) ∧
      (skipSpace rest = ']' :: t → parseItems (fuel + 1) s = some ([v], t)) := by
  constructor
  all_goals
    intro hrest
    conv_lhs => unfold parseItems
    simp only [hv, hrest, Option.bind_eq_bind, Option.bind_some]
  cases parseItems fuel t <;> rfl

theorem parseFields_field {fuel : Nat} {key : String} {s rest t : List Char} {v : Value} (hkey : key.toList.length < fuel)
    (hv : parseValue fuel s = some (v, rest)) :
    (skipSpace rest = ',' :: t →
      parseFields (fuel + 1) ((quote key).toList ++ ':' :: s) = (parseFields fuel t).map fun r => ((key, v) :: r.1, r.2)) ∧
      (skipSpace rest = '\x7d' :: t → parseFields (fuel + 1) ((quote key).toList ++ ':' :: s) = some ([(key, v)], t)) := by
  have hstring := parseString_escaped key.toList (':' :: s) fuel hkey
  rw [quote_toList, List.cons_append, List.append_assoc, List.cons_append, List.nil_append]
  constructor
  all_goals
    intro hrest
    conv_lhs => unfold parseFields
    rw [skipSpace_cons _ (by decide)]
    simp only [hstring, Option.bind_eq_bind, Option.bind_some]
    rw [skipSpace_cons _ (by decide)]
    simp only [hv, hrest, Option.bind_some, String.ofList_toList]
  cases parseFields fuel t <;> rfl

theorem prettyText_cons {v : Value} (h : v.Numeric) (depth : Nat) :
    ∃ c s, prettyText depth v = c :: s ∧ isJsonSpace c = false ∧ c ≠ ']' := by
  cases v with
  | array items => exact ⟨'[', _, by rw [prettyText], by decide, by decide⟩
  | object fields => exact ⟨'\x7b', _, by rw [prettyText], by decide, by decide⟩
  | null | bool _ | number _ | string _ =>
    rw [prettyText]
    exact render_cons h

theorem prettyItems_cons (depth : Nat) (v : Value) (vs : List Value) :
    prettyItems depth true (v :: vs) = newline depth ++ (prettyText depth v ++ prettyItems depth false vs) := by
  rw [prettyItems, if_pos rfl]

theorem prettyItems_next (depth : Nat) (v : Value) (vs : List Value) :
    prettyItems depth false (v :: vs) = ',' :: prettyItems depth true (v :: vs) := by
  simp [prettyItems]

theorem prettyFields_cons (depth : Nat) (key : String) (v : Value) (fields : List (String × Value)) :
    prettyFields depth true ((key, v) :: fields) =
      newline depth ++ ((quote key).toList ++ ':' :: ' ' :: (prettyText depth v ++ prettyFields depth false fields)) := by
  rw [prettyFields, if_pos rfl]

theorem prettyFields_next (depth : Nat) (field : String × Value) (fields : List (String × Value)) :
    prettyFields depth false (field :: fields) = ',' :: prettyFields depth true (field :: fields) := by
  simp [prettyFields]

theorem prettyText_array (depth : Nat) (v : Value) (vs : List Value) (rest : List Char) :
    prettyText depth (array (v :: vs)) ++ rest =
      '[' :: (prettyItems (depth + 1) true (v :: vs) ++ (newline depth ++ ']' :: rest)) := by
  simp [prettyText]

theorem prettyText_object (depth : Nat) (field : String × Value) (fields : List (String × Value)) (rest : List Char) :
    prettyText depth (object (field :: fields)) ++ rest =
      '\x7b' :: (prettyFields (depth + 1) true (field :: fields) ++ (newline depth ++ '\x7d' :: rest)) := by
  simp [prettyText]

/-! ## Reading what is written -/

mutual

theorem parseValue_pretty : ∀ (v : Value) (depth fuel : Nat) (rest : List Char), v.Numeric → Ends rest →
    (prettyText depth v).length ≤ fuel → parseValue fuel (prettyText depth v ++ rest) = some (v, rest)
  | .null, depth, fuel, rest, hv, hrest, h => by
    rw [prettyText] at h ⊢
    exact parseValue_render .null fuel rest hv hrest h
  | .bool b, depth, fuel, rest, hv, hrest, h => by
    rw [prettyText] at h ⊢
    exact parseValue_render (.bool b) fuel rest hv hrest h
  | .number text, depth, fuel, rest, hv, hrest, h => by
    rw [prettyText] at h ⊢
    exact parseValue_number hv hrest h
  | .string s, depth, fuel, rest, _, _, h => by
    rw [prettyText] at h ⊢
    exact parseValue_string s rest h
  | .array items, depth, fuel, rest, hv, _, h => by
    cases fuel with
    | zero => simp [prettyText] at h
    | succ fuel =>
      cases items with
      | nil => simp [prettyText, prettyItems, parseValue, skipSpace, isJsonSpace]
      | cons v vs =>
        have hlen := congrArg List.length (prettyText_array depth v vs [])
        simp only [List.length_append, List.length_cons, List.length_nil] at hlen
        have hitems := parseItems_pretty (v :: vs) (depth + 1) fuel depth rest (by simp) hv (by omega)
        obtain ⟨c, s, hs, hspace, hclose⟩ := prettyText_cons hv.1 (depth + 1)
        have hskip : skipSpace (prettyItems (depth + 1) true (v :: vs) ++ (newline depth ++ ']' :: rest)) =
            c :: (s ++ prettyItems (depth + 1) false vs ++ (newline depth ++ ']' :: rest)) := by
          rw [prettyItems_cons, List.append_assoc, skipSpace_newline, hs, List.cons_append, List.cons_append,
            skipSpace_cons _ hspace]
        rw [prettyText_array, parseValue_items fuel hskip hclose, hitems, Option.map_some]
  | .object fields, depth, fuel, rest, hv, _, h => by
    cases fuel with
    | zero => simp [prettyText] at h
    | succ fuel =>
      cases fields with
      | nil => simp [prettyText, prettyFields, parseValue, skipSpace, isJsonSpace]
      | cons field fields =>
        have hlen := congrArg List.length (prettyText_object depth field fields [])
        simp only [List.length_append, List.length_cons, List.length_nil] at hlen
        have hfields := parseFields_pretty (field :: fields) (depth + 1) fuel depth rest (by simp) hv (by omega)
        obtain ⟨t, ht⟩ : ∃ t, skipSpace (prettyFields (depth + 1) true (field :: fields) ++ (newline depth ++ '\x7d' :: rest)) =
            '"' :: t := by
          rw [prettyFields_cons, List.append_assoc, skipSpace_newline, quote_toList]
          exact ⟨_, skipSpace_cons _ (by decide)⟩
        rw [prettyText_object, parseValue_fields fuel ht, hfields, Option.map_some]

theorem parseItems_pretty : ∀ (vs : List Value) (depth fuel outer : Nat) (rest : List Char), vs ≠ [] → NumericItems vs →
    (prettyItems depth true vs).length ≤ fuel →
    parseItems fuel (prettyItems depth true vs ++ (newline outer ++ ']' :: rest)) = some (vs, rest)
  | [], _, _, _, _, hne, _, _ => absurd rfl hne
  | v :: vs, depth, fuel, outer, rest, _, hvs, h => by
    have hlen := congrArg List.length (prettyItems_cons depth v vs)
    simp only [newline, List.length_append, List.length_cons] at hlen
    cases fuel with
    | zero => omega
    | succ fuel =>
      rw [prettyItems_cons, List.append_assoc, parseItems_skip (skipSpace_newline _ _), List.append_assoc]
      cases vs with
      | nil =>
        have hv := parseValue_pretty v depth fuel (newline outer ++ ']' :: rest) hvs.1 (ends_newline _ _) (by omega)
        rw [prettyItems, List.nil_append]
        apply (parseItems_item hv).2
        rw [skipSpace_newline, skipSpace_cons _ (by decide)]
      | cons w vs =>
        rw [prettyItems_next] at hlen ⊢
        rw [List.length_cons] at hlen
        have hv := parseValue_pretty v depth fuel (',' :: (prettyItems depth true (w :: vs) ++ (newline outer ++ ']' :: rest)))
          hvs.1 (ends_comma _) (by omega)
        have hrest := parseItems_pretty (w :: vs) depth fuel outer rest (by simp) hvs.2 (by omega)
        rw [List.cons_append, (parseItems_item hv).1 (skipSpace_cons _ (by decide)), hrest, Option.map_some]

theorem parseFields_pretty : ∀ (fields : List (String × Value)) (depth fuel outer : Nat) (rest : List Char), fields ≠ [] →
    NumericFields fields → (prettyFields depth true fields).length ≤ fuel →
    parseFields fuel (prettyFields depth true fields ++ (newline outer ++ '\x7d' :: rest)) = some (fields, rest)
  | [], _, _, _, _, hne, _, _ => absurd rfl hne
  | (key, v) :: fields, depth, fuel, outer, rest, _, hvs, h => by
    have hlen := congrArg List.length (prettyFields_cons depth key v fields)
    have hquote := length_quote key
    simp only [newline, List.length_append, List.length_cons] at hlen
    cases fuel with
    | zero => omega
    | succ fuel =>
      rw [prettyFields_cons, List.append_assoc, parseFields_skip (skipSpace_newline _ _), List.append_assoc, List.cons_append,
        List.cons_append, List.append_assoc]
      cases fields with
      | nil =>
        have hv := parseValue_pretty v depth fuel (newline outer ++ '\x7d' :: rest) hvs.1 (ends_newline _ _) (by omega)
        rw [prettyFields, List.nil_append]
        apply (parseFields_field (by omega) ((parseValue_skip (skipSpace_blank _) fuel).trans hv)).2
        rw [skipSpace_newline, skipSpace_cons _ (by decide)]
      | cons field fields =>
        rw [prettyFields_next] at hlen ⊢
        rw [List.length_cons] at hlen
        have hv := parseValue_pretty v depth fuel
          (',' :: (prettyFields depth true (field :: fields) ++ (newline outer ++ '\x7d' :: rest))) hvs.1 (ends_comma _) (by omega)
        have hrest := parseFields_pretty (field :: fields) depth fuel outer rest (by simp) hvs.2 (by omega)
        rw [List.cons_append, (parseFields_field (by omega) ((parseValue_skip (skipSpace_blank _) fuel).trans hv)).1
          (skipSpace_cons _ (by decide)), hrest, Option.map_some]

end

theorem fromStr_pretty {v : Value} (h : v.Numeric) : fromStr v.pretty = some v := by
  have hparse := parseValue_pretty v 0 _ [] h ends_nil (Nat.le_succ _)
  rw [List.append_nil] at hparse
  simp [fromStr, pretty, hparse, skipSpace]

end Llmctl.Value
