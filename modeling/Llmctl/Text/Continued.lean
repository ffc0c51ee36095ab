import Llmctl.Text.Json

/-!
# A JSON text that goes on

What is read from a text is read as well from a longer one, and nothing but spaces may
follow a value. So two objects, one after the other, are no value.
-/

namespace Llmctl.Value

/-! ## Readers -/

section
variable {α β : Type} {x : List Char}

/-- What one reader reads from a text, the other reads from the text and `x`. -/
def Continues (x : List Char) (o o' : Option (α × List Char)) : Prop := ∀ a r, o = some (a, r) → o' = some (a, r ++ x)

theorem Continues.none (o' : Option (α × List Char)) : Continues x .none o' := nofun

theorem Continues.some (a : α) (r : List Char) : Continues x (some (a, r)) (.some (a, r ++ x)) := by
  intro b u h
  obtain ⟨rfl, rfl⟩ := Prod.mk.inj (Option.some.inj h)
  rfl

theorem Continues.ite {p : Prop} [Decidable p] {a a' b b' : Option (α × List Char)} (ha : Continues x a a')
    (hb : Continues x b b') : Continues x (if p then a else b) (if p then a' else b') := by
  by_cases hp : p
  · rw [if_pos hp, if_pos hp]
    exact ha
  · rw [if_neg hp, if_neg hp]
    exact hb

theorem Continues.map {o o' : Option (α × List Char)} (h : Continues x o o') (f : α → β) :
    Continues x (o.map fun r => (f r.1, r.2)) (o'.map fun r => (f r.1, r.2)) := by
  intro b u hb
  obtain ⟨⟨a, r⟩, ha, heq⟩ := Option.map_eq_some_iff.mp hb
  rw [h a r ha, ← (Prod.mk.inj heq).1, ← (Prod.mk.inj heq).2]
  rfl

theorem Continues.bind {o o' : Option (α × List Char)} {f g : α × List Char → Option (β × List Char)}
    (h : Continues x o o') (hf : ∀ a r, Continues x (f (a, r)) (g (a, r ++ x))) : Continues x (o.bind f) (o'.bind g) := by
  intro b u hb
  obtain ⟨⟨a, r⟩, ha, hb⟩ := Option.bind_eq_some_iff.mp hb
  rw [h a r ha]
  exact hf a r b u hb

end

/-! ## Strings -/

section
variable {x : List Char}

theorem hex4_continues (s : List Char) : Continues x (hex4 s) (hex4 (s ++ x)) := by
  intro n r h
  unfold hex4 at h
  split at h
  · obtain ⟨a, ha, h⟩ := Option.bind_eq_some_iff.mp h
    obtain ⟨b, hb, h⟩ := Option.bind_eq_some_iff.mp h
    obtain ⟨c, hc, h⟩ := Option.bind_eq_some_iff.mp h
    obtain ⟨d, hd, h⟩ := Option.bind_eq_some_iff.mp h
    cases h
    simp [hex4, ha, hb, hc, hd]
  · cases h

theorem unescapeUnicode_continues (s : List Char) : Continues x (unescapeUnicode s) (unescapeUnicode (s ++ x)) := by
  refine (hex4_continues s).bind fun n r => .ite ?_ (.ite (.none _) (.some _ r))
  split
  · rename_i rest
    exact (hex4_continues rest).bind fun m r => .ite (.some _ r) (.none _)
  · exact .none _

theorem unescape_continues (s : List Char) : Continues x (unescape s) (unescape (s ++ x)) := by
  cases s with
  | nil => exact .none _
  | cons c s =>
    exact .ite (.some c s) (.ite (.some _ s) (.ite (.some _ s) (.ite (.some _ s) (.ite (.some _ s) (.ite (.some _ s)
      (.ite (unescapeUnicode_continues s) (.none _)))))))

theorem parseString_continues {fuel fuel' : Nat} (hle : fuel ≤ fuel') (s : List Char) :
    Continues x (parseString fuel s) (parseString fuel' (s ++ x)) := by
  induction fuel generalizing fuel' s with
  | zero => exact .none _
  | succ fuel ih =>
    obtain ⟨fuel', rfl⟩ := Nat.exists_eq_add_of_le' (Nat.zero_lt_of_lt hle)
    have hle : fuel ≤ fuel' := Nat.le_of_succ_le_succ hle
    cases s with
    | nil => exact .none _
    | cons c s =>
      refine .ite (.some [] s) (.ite ?_ (.ite (.none _) ?_))
      · exact (unescape_continues s).bind fun c r => (ih hle r).bind fun t r => .some (c :: t) r
      · exact (ih hle s).bind fun t r => .some (c :: t) r

end

/-! ## Values -/

theorem skipSpace_append {s t x : List Char} {c : Char} (h : skipSpace s = c :: t) :
    skipSpace (s ++ x) = c :: (t ++ x) := by
  unfold skipSpace at h ⊢
  rw [List.dropWhile_append, h]
  rfl

theorem parseValue_space (fuel : Nat) {s t : List Char} (h : skipSpace s = skipSpace t) :
    parseValue fuel s = parseValue fuel t := by
  cases fuel with
  | zero => rfl
  | succ fuel =>
    unfold parseValue
    rw [h]

theorem parseValue_nil (fuel : Nat) : parseValue fuel [] = none := by
  cases fuel with
  | zero => rfl
  | succ fuel => rfl

theorem parseItems_nil (fuel : Nat) : parseItems fuel [] = none := by
  cases fuel with
  | zero => rfl
  | succ fuel => simp [parseItems, parseValue_nil]

theorem parseFields_nil (fuel : Nat) : parseFields fuel [] = none := by
  cases fuel with
  | zero => rfl
  | succ fuel => rfl

section
variable {x : List Char}

theorem parseNumber_continues (hx : Ends x) (s : List Char) : Continues x (parseNumber s) (parseNumber (s ++ x)) :=
  fun _ _ h => parseNumber_append h fun _ => hx

mutual

theorem parseValue_continues (hx : Ends x) : ∀ (fuel fuel' : Nat), fuel ≤ fuel' → ∀ s,
    Continues x (parseValue fuel s) (parseValue fuel' (s ++ x))
  | 0, _, _, _ => .none _
  | _ + 1, 0, hle, _ => absurd hle (Nat.not_succ_le_zero _)
  | fuel + 1, fuel' + 1, hle, s => by
    have hle : fuel ≤ fuel' := Nat.le_of_succ_le_succ hle
    cases hs : skipSpace s with
    | nil =>
      unfold parseValue
      rw [hs]
      exact .none _
    | cons c u =>
      by_cases hc : c.isDigit = true ∨ c = '-'
      · rw [parseValue_space (fuel + 1) (t := c :: u) (by rw [hs, skipSpace_cons u (digit_ne hc).1]),
          parseValue_space (fuel' + 1) (t := c :: (u ++ x)) (by rw [skipSpace_append hs, skipSpace_cons _ (digit_ne hc).1]),
          parseValue_digit fuel u hc, parseValue_digit fuel' (u ++ x) hc]
        exact (parseNumber_continues hx (c :: u)).map fun t => number (String.ofList t)
      · unfold parseValue
        rw [hs, skipSpace_append hs]
        split
        · rename_i heq
          cases heq
          exact (parseString_continues hle u).bind fun t r => .some _ r
        · rename_i heq
          cases heq
          cases hu : skipSpace u with
          | nil =>
            simp only [parseItems_nil]
            exact .none _
          | cons d w =>
            simp only [skipSpace_append hu]
            split
            · rename_i heq
              cases heq
              exact .some _ w
            · rename_i hne
              split
              · rename_i heq
                cases heq
                exact (hne w rfl).elim
              · exact (parseItems_continues hx fuel fuel' hle (d :: w)).bind fun vs r => .some _ r
        · rename_i heq
          cases heq
          cases hu : skipSpace u with
          | nil =>
            simp only [parseFields_nil]
            exact .none _
          | cons d w =>
            simp only [skipSpace_append hu]
            split
            · rename_i heq
              cases heq
              exact .some _ w
            · rename_i hne
              split
              · rename_i heq
                cases heq
                exact (hne w rfl).elim
              · exact (parseFields_continues hx fuel fuel' hle (d :: w)).bind fun fields r => .some _ r
        · rename_i rest heq
          cases heq
          exact .some _ rest
        · rename_i rest heq
          cases heq
          exact .some _ rest
        · rename_i rest heq
          cases heq
          exact .some _ rest
        · intro v r h
          obtain ⟨⟨t, u⟩, ht, -⟩ := Option.bind_eq_some_iff.mp h
          obtain ⟨c, s', hcs, hdigit⟩ := parseNumber_cons ht
          obtain ⟨rfl, -⟩ := List.cons.inj hcs
          exact absurd hdigit hc

theorem parseItems_continues (hx : Ends x) : ∀ (fuel fuel' : Nat), fuel ≤ fuel' → ∀ s,
    Continues x (parseItems fuel s) (parseItems fuel' (s ++ x))
  | 0, _, _, _ => .none _
  | _ + 1, 0, hle, _ => absurd hle (Nat.not_succ_le_zero _)
  | fuel + 1, fuel' + 1, hle, s => by
    have hle : fuel ≤ fuel' := Nat.le_of_succ_le_succ hle
    refine (parseValue_continues hx fuel fuel' hle s).bind fun v r => ?_
    cases hr : skipSpace r with
    | nil =>
      simp only [hr]
      exact .none _
    | cons c u =>
      simp only [hr, skipSpace_append hr]
      split
      · rename_i heq
        cases heq
        exact (parseItems_continues hx fuel fuel' hle u).bind fun vs r => .some (v :: vs) r
      · rename_i heq
        cases heq
        exact .some [v] u
      · exact .none _

theorem parseFields_continues (hx : Ends x) : ∀ (fuel fuel' : Nat), fuel ≤ fuel' → ∀ s,
    Continues x (parseFields fuel s) (parseFields fuel' (s ++ x))
  | 0, _, _, _ => .none _
  | _ + 1, 0, hle, _ => absurd hle (Nat.not_succ_le_zero _)
  | fuel + 1, fuel' + 1, hle, s => by
    have hle : fuel ≤ fuel' := Nat.le_of_succ_le_succ hle
    cases hs : skipSpace s with
    | nil =>
      unfold parseFields
      rw [hs]
      exact .none _
    | cons c u =>
      unfold parseFields
      rw [hs, skipSpace_append hs]
      split
      · rename_i heq
        cases heq
        refine (parseString_continues hle u).bind fun key r => ?_
        cases hr : skipSpace r with
        | nil =>
          simp only [hr]
          exact .none _
        | cons d w =>
          simp only [hr, skipSpace_append hr]
          split
          · rename_i heq
            cases heq
            refine (parseValue_continues hx fuel fuel' hle w).bind fun v r => ?_
            cases hr : skipSpace r with
            | nil =>
              exact .none _
            | cons e w =>
              simp only [skipSpace_append hr]
              split
              · rename_i heq
                cases heq
                exact (parseFields_continues hx fuel fuel' hle w).bind fun fields r => .some _ r
              · rename_i heq
                cases heq
                exact .some _ w
              · exact .none _
          · exact .none _
      · exact .none _

end

end

/-! ## Documents -/

section
variable {s x : List Char} {v : Value}

theorem fromStr_iff {text : String} : fromStr text = some v ↔
    ∃ rest, parseValue (text.toList.length + 1) text.toList = some (v, rest) ∧ skipSpace rest = [] := by
  unfold fromStr
  cases hparse : parseValue (text.toList.length + 1) text.toList with
  | none => simp
  | some r =>
    obtain ⟨w, rest⟩ := r
    by_cases hrest : skipSpace rest = []
    · simp [hrest]
    · simp [hrest]

/-- Spaces before a value do not matter. -/
theorem fromStr_skip {space : List Char} (hspace : ∀ c ∈ space, isJsonSpace c = true)
    (h : fromStr (String.ofList s) = some v) : fromStr (String.ofList (space ++ s)) = some v := by
  rw [fromStr_iff, String.toList_ofList] at h ⊢
  obtain ⟨rest, hparse, hrest⟩ := h
  refine ⟨rest, ?_, hrest⟩
  have hskip : skipSpace (space ++ s) = skipSpace s := List.dropWhile_append_of_pos hspace
  have hmore := parseValue_continues ends_nil (s.length + 1) ((space ++ s).length + 1)
    (by rw [List.length_append]; omega) s v rest hparse
  rw [List.append_nil, List.append_nil] at hmore
  rwa [parseValue_space _ hskip]

/-- A value with more than spaces after it is none. -/
theorem fromStr_trailing (h : fromStr (String.ofList s) = some v) (hx : Ends x) (hmore : skipSpace x ≠ []) :
    fromStr (String.ofList (s ++ x)) = none := by
  obtain ⟨rest, hparse, hrest⟩ := fromStr_iff.mp h
  rw [String.toList_ofList] at hparse
  have hlong := parseValue_continues hx (s.length + 1) ((s ++ x).length + 1) (by rw [List.length_append]; omega) s v
    rest hparse
  have hleft : skipSpace (rest ++ x) ≠ [] := by
    unfold skipSpace at hrest hmore ⊢
    rw [List.dropWhile_append, hrest]
    exact hmore
  unfold fromStr
  rw [String.toList_ofList, hlong]
  simp only
  rw [if_neg hleft]

end

end Llmctl.Value
