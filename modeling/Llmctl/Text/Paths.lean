import Llmctl.Text.Document

/-!
# Paths into JSON

Where a path leads in a value, the last of the fields with one key counting as in a map that
is filled. What `serde_json` keeps of a value, and what it sets, is said by what stands at
each path.
-/

namespace Llmctl.Value

inductive Step where
  | key (key : String)
  | item (index : Nat)
  deriving DecidableEq, Repr

def lastField (key : String) : List (String × Value) → Option Value
  | [] => none
  | field :: fields => (lastField key fields).or (if field.1 = key then some field.2 else none)

def step : Step → Value → Option Value
  | .key key, object fields => lastField key fields
  | .item i, array items => items[i]?
  | _, _ => none

def follow : List Step → Value → Option Value
  | [], v => some v
  | s :: p, v => (step s v).bind (follow p)

/-! ## Maps -/

section
variable {key : String} {v : Value} {fields : List (String × Value)}

theorem mem_of_lastField (h : lastField key fields = some v) : (key, v) ∈ fields := by
  induction fields with
  | nil => cases h
  | cons field fields ih =>
    rw [lastField, Option.or_eq_some_iff] at h
    rcases h with h | ⟨-, h⟩
    · exact List.mem_cons_of_mem _ (ih h)
    · split at h
      · rename_i hkey
        cases h
        rw [← hkey]
        exact List.mem_cons_self
      · cases h

theorem lastField_eq_none (h : key ∉ fields.map (·.1)) : lastField key fields = none := by
  cases hlast : lastField key fields with
  | none => rfl
  | some v => exact absurd (List.mem_map.mpr ⟨_, mem_of_lastField hlast, rfl⟩) h

theorem lastField_of_mem (hnodup : (fields.map (·.1)).Nodup) (h : (key, v) ∈ fields) : lastField key fields = some v := by
  induction fields with
  | nil => cases h
  | cons field fields ih =>
    rw [List.map_cons, List.nodup_cons] at hnodup
    rw [lastField]
    rcases List.mem_cons.mp h with rfl | hmem
    · rw [lastField_eq_none hnodup.1, if_pos rfl, Option.none_or]
    · rw [ih hnodup.2 hmem, Option.some_or]

theorem lastField_isSome : (lastField key fields).isSome = true ↔ key ∈ fields.map (·.1) := by
  constructor
  · intro h
    obtain ⟨v, hv⟩ := Option.isSome_iff_exists.mp h
    exact List.mem_map.mpr ⟨_, mem_of_lastField hv, rfl⟩
  · intro h
    induction fields with
    | nil => cases h
    | cons field fields ih =>
      rw [lastField, Option.isSome_or, Bool.or_eq_true_iff]
      rcases List.mem_cons.mp h with rfl | hmem
      · exact .inr (by simp)
      · exact .inl (ih hmem)

theorem lastField_perm {others : List (String × Value)} (hnodup : (fields.map (·.1)).Nodup) (h : fields.Perm others) :
    lastField key others = lastField key fields := by
  cases hlast : lastField key fields with
  | some v =>
    exact lastField_of_mem ((h.map _).nodup_iff.mp hnodup) (h.mem_iff.mp (mem_of_lastField hlast))
  | none =>
    refine lastField_eq_none fun hmem => ?_
    have hkey := (h.map (·.1)).mem_iff.mpr hmem
    rw [← lastField_isSome, hlast] at hkey
    cases hkey

theorem lastField_append (fields others : List (String × Value)) :
    lastField key (fields ++ others) = (lastField key others).or (lastField key fields) := by
  induction fields with
  | nil => simp [lastField]
  | cons field fields ih => rw [List.cons_append, lastField, lastField, ih, Option.or_assoc]

theorem keys_insertField (key : String) (v : Value) (fields : List (String × Value)) :
    (insertField key v fields).map (·.1) = if key ∈ fields.map (·.1) then fields.map (·.1) else fields.map (·.1) ++ [key] := by
  induction fields with
  | nil => rfl
  | cons field fields ih =>
    rw [insertField]
    by_cases hkey : field.1 = key
    · simp [hkey]
    · rw [if_neg hkey, List.map_cons, ih]
      by_cases hmem : key ∈ fields.map (·.1)
      · simp [hmem]
      · simp [hmem, Ne.symm hkey]

theorem nodup_insertField (key : String) (v : Value) (h : (fields.map (·.1)).Nodup) :
    ((insertField key v fields).map (·.1)).Nodup := by
  rw [keys_insertField]
  split
  · exact h
  · rename_i hmem
    exact List.nodup_append.mpr ⟨h, List.nodup_singleton _, fun a ha b hb hab => by
      rw [List.mem_singleton.mp hb] at hab
      exact hmem (hab ▸ ha)⟩

theorem lastField_insertField (other : String) (v : Value) (h : (fields.map (·.1)).Nodup) :
    lastField key (insertField other v fields) = if other = key then some v else lastField key fields := by
  induction fields with
  | nil => simp [insertField, lastField]
  | cons field fields ih =>
    rw [List.map_cons, List.nodup_cons] at h
    rw [insertField]
    by_cases hfield : field.1 = other
    · rw [if_pos hfield, lastField, lastField]
      by_cases hkey : other = key
      · have hnone : lastField key fields = none := lastField_eq_none (by rw [← hkey, ← hfield]; exact h.1)
        simp [hkey, hnone]
      · simp [hkey, hfield]
    · rw [if_neg hfield, lastField, ih h.2, lastField]
      by_cases hkey : other = key
      · simp [hkey]
      · simp [hkey]

theorem foldl_insertField_spec {map : List (String × Value)} (h : (map.map (·.1)).Nodup) :
    ((fields.foldl (fun map field => insertField field.1 field.2 map) map).map (·.1)).Nodup ∧
      ∀ key, lastField key (fields.foldl (fun map field => insertField field.1 field.2 map) map) =
        (lastField key fields).or (lastField key map) := by
  induction fields generalizing map with
  | nil => exact ⟨h, fun _ => rfl⟩
  | cons field fields ih =>
    obtain ⟨hnodup, hlast⟩ := ih (nodup_insertField field.1 field.2 h)
    refine ⟨hnodup, fun key => ?_⟩
    rw [List.foldl_cons, hlast key, lastField_insertField _ _ h, lastField, Option.or_assoc]
    congr 1
    split <;> simp

theorem nodup_collectFields (order : FieldOrder) (fields : List (String × Value)) :
    ((collectFields order fields).map (·.1)).Nodup := by
  have hspec := (@foldl_insertField_spec fields [] List.nodup_nil).1
  unfold collectFields
  cases order with
  | sorted => exact ((perm_sortFields _).map _).nodup_iff.mpr hspec
  | inserted => exact hspec

theorem lastField_collectFields (order : FieldOrder) (key : String) (fields : List (String × Value)) :
    lastField key (collectFields order fields) = lastField key fields := by
  obtain ⟨hnodup, hlast⟩ := @foldl_insertField_spec fields [] List.nodup_nil
  have hlast := hlast key
  simp only [lastField, Option.or_none] at hlast
  unfold collectFields
  cases order with
  | sorted =>
    rw [← hlast]
    exact lastField_perm hnodup (perm_sortFields _).symm
  | inserted => exact hlast

end

/-! ## What is set -/

theorem lastField_set (order : FieldOrder) (key other : String) (w : Value) (fields : List (String × Value)) :
    lastField key (collectFields order (fields ++ [(other, w)])) = if other = key then some w else lastField key fields := by
  rw [lastField_collectFields, lastField_append]
  by_cases hkey : other = key
  · simp [lastField, hkey]
  · simp [lastField, hkey]

theorem step_setField {fields : List (String × Value)} (order : FieldOrder) (key : String) (w : Value) (s : Step) :
    step s (setField (object fields) order key w) = if s = .key key then some w else step s (object fields) := by
  cases s with
  | item i => simp [setField, json, step]
  | key other =>
    rw [setField, json, step, step, lastField_set]
    by_cases hkey : key = other
    · simp [hkey]
    · simp [hkey, Ne.symm hkey]

/-! ## What is kept -/

section
variable {numbers : Numbers} {order : FieldOrder}

theorem keepItems_rel {vs ws : List Value} (h : keepItems numbers order vs = some ws) :
    List.Forall₂ (fun v w => keep numbers order v = some w) vs ws := by
  induction vs generalizing ws with
  | nil =>
    cases h
    exact .nil
  | cons v vs ih =>
    obtain ⟨w, hw, h⟩ := Option.bind_eq_some_iff.mp h
    obtain ⟨ws, hws, h⟩ := Option.bind_eq_some_iff.mp h
    cases h
    exact .cons hw (ih hws)

theorem keepFields_rel {fields others : List (String × Value)} (h : keepFields numbers order fields = some others) :
    List.Forall₂ (fun field other => field.1 = other.1 ∧ keep numbers order field.2 = some other.2) fields others := by
  induction fields generalizing others with
  | nil =>
    cases h
    exact .nil
  | cons field fields ih =>
    obtain ⟨w, hw, h⟩ := Option.bind_eq_some_iff.mp h
    obtain ⟨rest, hrest, h⟩ := Option.bind_eq_some_iff.mp h
    cases h
    exact .cons ⟨rfl, hw⟩ (ih hrest)

theorem rel_or {α β : Type} {R : α → β → Prop} {a c : Option α} {b d : Option β} (h : Option.Rel R a b)
    (h' : Option.Rel R c d) : Option.Rel R (a.or c) (b.or d) := by
  cases h with
  | some hab => exact .some hab
  | none => exact h'

theorem lastField_rel {R : Value → Value → Prop} {fields others : List (String × Value)}
    (h : List.Forall₂ (fun field other => field.1 = other.1 ∧ R field.2 other.2) fields others) (key : String) :
    Option.Rel R (lastField key fields) (lastField key others) := by
  induction h with
  | nil => exact .none
  | @cons field other fields others hfield _ ih =>
    rw [lastField, lastField, ← hfield.1]
    refine rel_or ih ?_
    by_cases hkey : field.1 = key
    · simp [hkey, hfield.2]
    · simp [hkey]

theorem getElem?_rel {α β : Type} {R : α → β → Prop} {vs : List α} {ws : List β} (h : List.Forall₂ R vs ws) (i : Nat) :
    Option.Rel R vs[i]? ws[i]? := by
  induction h generalizing i with
  | nil => exact .none
  | cons hv _ ih =>
    cases i with
    | zero => exact .some hv
    | succ i => exact ih i

theorem step_keep {v w : Value} (h : keep numbers order v = some w) (s : Step) :
    Option.Rel (fun x y => keep numbers order x = some y) (step s v) (step s w) := by
  cases v with
  | null =>
    cases h
    cases s <;> exact .none
  | bool b =>
    cases h
    cases s <;> exact .none
  | string t =>
    cases h
    cases s <;> exact .none
  | number text =>
    obtain ⟨n, -, rfl⟩ := Option.map_eq_some_iff.mp h
    cases s <;> exact .none
  | array items =>
    obtain ⟨ws, hws, rfl⟩ := Option.map_eq_some_iff.mp h
    cases s with
    | key key => exact .none
    | item i => exact getElem?_rel (keepItems_rel hws) i
  | object fields =>
    obtain ⟨others, hothers, rfl⟩ := Option.map_eq_some_iff.mp h
    cases s with
    | item i => exact .none
    | key key =>
      rw [step, step, lastField_collectFields]
      exact lastField_rel (keepFields_rel hothers) key

theorem forall₂_modify {α β : Type} {R : α → β → Prop} {f : α → α} {g : β → β} {vs : List α} {ws : List β}
    (h : List.Forall₂ R vs ws) (i : Nat) (hi : ∀ v w, vs[i]? = some v → R v w → R (f v) (g w)) :
    List.Forall₂ R (vs.modify i f) (ws.modify i g) := by
  induction h generalizing i with
  | nil => simp
  | @cons v w vs ws hv hvs ih =>
    cases i with
    | zero => exact .cons (hi v w rfl hv) hvs
    | succ i => exact .cons hv (ih i hi)

/-- At each path there is what is kept of what was there. -/
theorem follow_keep {v w : Value} (h : keep numbers order v = some w) (p : List Step) :
    Option.Rel (fun x y => keep numbers order x = some y) (follow p v) (follow p w) := by
  induction p generalizing v w with
  | nil => exact .some h
  | cons s p ih =>
    rw [follow, follow]
    have hstep := step_keep h s
    generalize step s v = x at hstep
    generalize step s w = y at hstep
    cases hstep with
    | none => exact .none
    | some hxy => exact ih hxy

/-! ## Values that are kept as they are -/

mutual

/-- A value of maps: no key stands twice, and the fields stand in the order of the map. -/
def Collected (order : FieldOrder) : Value → Prop
  | array items => CollectedItems order items
  | object fields => (fields.map (·.1)).Nodup ∧ collectFields order fields = fields ∧ CollectedFields order fields
  | _ => True

def CollectedItems (order : FieldOrder) : List Value → Prop
  | [] => True
  | v :: vs => v.Collected order ∧ CollectedItems order vs

def CollectedFields (order : FieldOrder) : List (String × Value) → Prop
  | [] => True
  | (_, v) :: fields => v.Collected order ∧ CollectedFields order fields

end

mutual

/-- A number is replaced, or nothing is left where one has no replacement. -/
def mapNumbers (f : String → Option String) : Value → Option Value
  | number text => (f text).map number
  | array items => (mapItems f items).map array
  | object fields => (mapFields f fields).map object
  | v => some v

def mapItems (f : String → Option String) : List Value → Option (List Value)
  | [] => some []
  | v :: vs => do
    let v ← mapNumbers f v
    let vs ← mapItems f vs
    some (v :: vs)

def mapFields (f : String → Option String) : List (String × Value) → Option (List (String × Value))
  | [] => some []
  | (key, v) :: fields => do
    let v ← mapNumbers f v
    let fields ← mapFields f fields
    some ((key, v) :: fields)

end

mutual

def numbersOf : Value → List String
  | number text => [text]
  | array items => numbersOfItems items
  | object fields => numbersOfFields fields
  | _ => []

def numbersOfItems : List Value → List String
  | [] => []
  | v :: vs => v.numbersOf ++ numbersOfItems vs

def numbersOfFields : List (String × Value) → List String
  | [] => []
  | (_, v) :: fields => v.numbersOf ++ numbersOfFields fields

end

theorem collectedFields_iff {fields : List (String × Value)} :
    CollectedFields order fields ↔ ∀ field ∈ fields, field.2.Collected order := by
  induction fields with
  | nil => simp [CollectedFields]
  | cons field fields ih => simp [CollectedFields, ih]

theorem keys_mapFields {f : String → Option String} {fields others : List (String × Value)}
    (h : mapFields f fields = some others) : others.map (·.1) = fields.map (·.1) := by
  induction fields generalizing others with
  | nil =>
    cases h
    rfl
  | cons field fields ih =>
    obtain ⟨v, -, h⟩ := Option.bind_eq_some_iff.mp h
    obtain ⟨rest, hrest, h⟩ := Option.bind_eq_some_iff.mp h
    cases h
    rw [List.map_cons, List.map_cons, ih hrest]

/-- Whether the order of a map is kept depends on the keys only. -/
theorem collectFields_of_keys {fields others : List (String × Value)} (hkeys : others.map (·.1) = fields.map (·.1))
    (hnodup : (fields.map (·.1)).Nodup) (h : collectFields order fields = fields) : collectFields order others = others := by
  rw [collectFields_of_nodup order (hkeys ▸ hnodup)]
  cases order with
  | inserted => rfl
  | sorted =>
    rw [collectFields_of_nodup _ hnodup] at h
    have hsorted : (fields.map (·.1)).Pairwise (· ≤ ·) := by
      rw [List.pairwise_map, ← h]
      exact pairwise_sortFields fields
    rw [← hkeys, List.pairwise_map] at hsorted
    exact hsorted.insertionSort_eq

mutual

/-- A value of maps is kept but for its numbers. -/
theorem keep_of_collected : ∀ {v : Value}, v.Collected order → keep numbers order v = mapNumbers numbers.read v
  | .null, _ | .bool _, _ | .string _, _ | .number _, _ => rfl
  | .array items, h => by rw [keep, mapNumbers, keepItems_of_collected h]
  | .object fields, h => by
    rw [keep, mapNumbers, keepFields_of_collected h.2.2]
    cases hmap : mapFields numbers.read fields with
    | none => rfl
    | some others =>
      rw [Option.map_some, Option.map_some, collectFields_of_keys (keys_mapFields hmap) h.1 h.2.1]

theorem keepItems_of_collected : ∀ {vs : List Value}, CollectedItems order vs → keepItems numbers order vs = mapItems numbers.read vs
  | [], _ => rfl
  | v :: vs, h => by rw [keepItems, mapItems, keep_of_collected h.1, keepItems_of_collected h.2]

theorem keepFields_of_collected : ∀ {fields : List (String × Value)}, CollectedFields order fields →
    keepFields numbers order fields = mapFields numbers.read fields
  | [], _ => rfl
  | (key, v) :: fields, h => by rw [keepFields, mapFields, keep_of_collected h.1, keepFields_of_collected h.2]

end

mutual

theorem keep_collected : ∀ {v w : Value}, keep numbers order v = some w → w.Collected order
  | .null, _, h | .bool _, _, h | .string _, _, h => by
    cases h
    trivial
  | .number _, _, h => by
    obtain ⟨n, -, rfl⟩ := Option.map_eq_some_iff.mp h
    trivial
  | .array items, _, h => by
    obtain ⟨ws, hws, rfl⟩ := Option.map_eq_some_iff.mp h
    exact keepItems_collected hws
  | .object fields, _, h => by
    obtain ⟨others, hothers, rfl⟩ := Option.map_eq_some_iff.mp h
    have hnodup := nodup_collectFields order others
    refine ⟨hnodup, ?_, ?_⟩
    · rw [collectFields_of_nodup order hnodup]
      cases order with
      | inserted => rfl
      | sorted => exact sortFields_sortFields _
    · rw [collectedFields_iff]
      intro field hmem
      have hlast := lastField_of_mem hnodup hmem
      rw [lastField_collectFields] at hlast
      exact keepFields_collected hothers field.2 (List.mem_map.mpr ⟨_, mem_of_lastField hlast, rfl⟩)

theorem keepItems_collected : ∀ {vs ws : List Value}, keepItems numbers order vs = some ws → CollectedItems order ws
  | [], _, h => by
    cases h
    trivial
  | v :: vs, _, h => by
    obtain ⟨w, hw, h⟩ := Option.bind_eq_some_iff.mp h
    obtain ⟨ws, hws, h⟩ := Option.bind_eq_some_iff.mp h
    cases h
    exact ⟨keep_collected hw, keepItems_collected hws⟩

theorem keepFields_collected : ∀ {fields others : List (String × Value)}, keepFields numbers order fields = some others →
    ∀ w ∈ others.map (·.2), w.Collected order
  | [], _, h => by
    cases h
    nofun
  | (key, v) :: fields, _, h => by
    obtain ⟨w, hw, h⟩ := Option.bind_eq_some_iff.mp h
    obtain ⟨ws, hws, h⟩ := Option.bind_eq_some_iff.mp h
    cases h
    exact List.forall_mem_cons.mpr ⟨keep_collected hw, keepFields_collected hws⟩

end

mutual

theorem mapNumbers_self_iff {f : String → Option String} : ∀ {v : Value},
    mapNumbers f v = some v ↔ ∀ t ∈ v.numbersOf, f t = some t
  | .null | .bool _ | .string _ => by simp [mapNumbers, numbersOf]
  | .number text => by simp [mapNumbers, numbersOf]
  | .array items => by simp [mapNumbers, numbersOf, @mapItems_self_iff f items]
  | .object fields => by simp [mapNumbers, numbersOf, @mapFields_self_iff f fields]

theorem mapItems_self_iff {f : String → Option String} : ∀ {vs : List Value},
    mapItems f vs = some vs ↔ ∀ t ∈ numbersOfItems vs, f t = some t
  | [] => by simp [mapItems, numbersOfItems]
  | v :: vs => by
    have hv := mapNumbers_self_iff (f := f) (v := v)
    have hvs := @mapItems_self_iff f vs
    simp [mapItems, numbersOfItems, Option.bind_eq_some_iff, or_imp, forall_and, hv, hvs]

theorem mapFields_self_iff {f : String → Option String} : ∀ {fields : List (String × Value)},
    mapFields f fields = some fields ↔ ∀ t ∈ numbersOfFields fields, f t = some t
  | [] => by simp [mapFields, numbersOfFields]
  | (key, v) :: fields => by
    have hv := mapNumbers_self_iff (f := f) (v := v)
    have hfields := @mapFields_self_iff f fields
    simp [mapFields, numbersOfFields, Option.bind_eq_some_iff, or_imp, forall_and, hv, hfields]

end

mutual

theorem mapNumbers_bind {f g : String → Option String} : ∀ v : Value,
    (mapNumbers f v).bind (mapNumbers g) = mapNumbers (fun t => (f t).bind g) v
  | .null | .bool _ | .string _ => rfl
  | .number text => by cases h : f text <;> simp [mapNumbers, h]
  | .array items => by
    rw [mapNumbers, mapNumbers, ← mapItems_bind items]
    cases mapItems f items <;> rfl
  | .object fields => by
    rw [mapNumbers, mapNumbers, ← mapFields_bind fields]
    cases mapFields f fields <;> rfl

theorem mapItems_bind {f g : String → Option String} : ∀ vs : List Value,
    (mapItems f vs).bind (mapItems g) = mapItems (fun t => (f t).bind g) vs
  | [] => rfl
  | v :: vs => by
    rw [mapItems, mapItems, ← mapNumbers_bind v, ← mapItems_bind vs]
    cases mapNumbers f v with
    | none => rfl
    | some w =>
      cases mapItems f vs with
      | none => cases h : mapNumbers g w <;> simp [h]
      | some ws => rfl

theorem mapFields_bind {f g : String → Option String} : ∀ fields : List (String × Value),
    (mapFields f fields).bind (mapFields g) = mapFields (fun t => (f t).bind g) fields
  | [] => rfl
  | (key, v) :: fields => by
    rw [mapFields, mapFields, ← mapNumbers_bind v, ← mapFields_bind fields]
    cases mapNumbers f v with
    | none => rfl
    | some w =>
      cases mapFields f fields with
      | none => cases h : mapNumbers g w <;> simp [h]
      | some ws => rfl

end

mutual

theorem keep_numeric : ∀ {v w : Value}, keep numbers order v = some w → w.Numeric
  | .null, _, h | .bool _, _, h | .string _, _, h => by
    cases h
    trivial
  | .number _, _, h => by
    obtain ⟨n, hn, rfl⟩ := Option.map_eq_some_iff.mp h
    exact numbers.printed hn
  | .array items, _, h => by
    obtain ⟨ws, hws, rfl⟩ := Option.map_eq_some_iff.mp h
    exact keepItems_numeric hws
  | .object fields, _, h => by
    obtain ⟨others, hothers, rfl⟩ := Option.map_eq_some_iff.mp h
    rw [Numeric, numericFields_iff]
    intro field hmem
    have hlast := lastField_of_mem (nodup_collectFields order others) hmem
    rw [lastField_collectFields] at hlast
    exact keepFields_numeric hothers field.2 (List.mem_map.mpr ⟨_, mem_of_lastField hlast, rfl⟩)

theorem keepItems_numeric : ∀ {vs ws : List Value}, keepItems numbers order vs = some ws → NumericItems ws
  | [], _, h => by
    cases h
    trivial
  | v :: vs, _, h => by
    obtain ⟨w, hw, h⟩ := Option.bind_eq_some_iff.mp h
    obtain ⟨ws, hws, h⟩ := Option.bind_eq_some_iff.mp h
    cases h
    exact ⟨keep_numeric hw, keepItems_numeric hws⟩

theorem keepFields_numeric : ∀ {fields others : List (String × Value)}, keepFields numbers order fields = some others →
    ∀ w ∈ others.map (·.2), w.Numeric
  | [], _, h => by
    cases h
    nofun
  | (key, v) :: fields, _, h => by
    obtain ⟨w, hw, h⟩ := Option.bind_eq_some_iff.mp h
    obtain ⟨ws, hws, h⟩ := Option.bind_eq_some_iff.mp h
    cases h
    exact List.forall_mem_cons.mpr ⟨keep_numeric hw, keepFields_numeric hws⟩

end

mutual

theorem mapNumbers_isSome {f : String → Option String} : ∀ {v : Value}, (∀ t ∈ v.numbersOf, (f t).isSome = true) →
    (mapNumbers f v).isSome = true
  | .null, _ | .bool _, _ | .string _, _ => rfl
  | .number text, h => by
    have htext := h text (List.mem_singleton.mpr rfl)
    rwa [mapNumbers, Option.isSome_map]
  | .array items, h => by rw [mapNumbers, Option.isSome_map, mapItems_isSome h]
  | .object fields, h => by rw [mapNumbers, Option.isSome_map, mapFields_isSome h]

theorem mapItems_isSome {f : String → Option String} : ∀ {vs : List Value}, (∀ t ∈ numbersOfItems vs, (f t).isSome = true) →
    (mapItems f vs).isSome = true
  | [], _ => rfl
  | v :: vs, h => by
    obtain ⟨hv, hvs⟩ := List.forall_mem_append.mp h
    obtain ⟨w, hw⟩ := Option.isSome_iff_exists.mp (mapNumbers_isSome hv)
    obtain ⟨ws, hws⟩ := Option.isSome_iff_exists.mp (mapItems_isSome hvs)
    simp [mapItems, hw, hws]

theorem mapFields_isSome {f : String → Option String} : ∀ {fields : List (String × Value)},
    (∀ t ∈ numbersOfFields fields, (f t).isSome = true) → (mapFields f fields).isSome = true
  | [], _ => rfl
  | (key, v) :: fields, h => by
    obtain ⟨hv, hfields⟩ := List.forall_mem_append.mp h
    obtain ⟨w, hw⟩ := Option.isSome_iff_exists.mp (mapNumbers_isSome hv)
    obtain ⟨ws, hws⟩ := Option.isSome_iff_exists.mp (mapFields_isSome hfields)
    simp [mapFields, hw, hws]

end

theorem mem_numbersOfFields {t : String} {fields : List (String × Value)} :
    t ∈ numbersOfFields fields ↔ ∃ field ∈ fields, t ∈ field.2.numbersOf := by
  induction fields with
  | nil => simp [numbersOfFields]
  | cons field fields ih => simp [numbersOfFields, ih]

theorem mem_numbersOfItems {t : String} {vs : List Value} : t ∈ numbersOfItems vs ↔ ∃ v ∈ vs, t ∈ v.numbersOf := by
  induction vs with
  | nil => simp [numbersOfItems]
  | cons v vs ih => simp [numbersOfItems, ih]

theorem mem_numbersOf_of_follow {v : Value} {p : List Step} {t : String} (h : follow p v = some (.number t)) :
    t ∈ v.numbersOf := by
  induction p generalizing v with
  | nil =>
    obtain rfl := Option.some.inj h
    exact List.mem_singleton.mpr rfl
  | cons s p ih =>
    obtain ⟨w, hw, h⟩ := Option.bind_eq_some_iff.mp h
    have ht := ih h
    cases v with
    | array items =>
      cases s with
      | key key => cases hw
      | item i => exact mem_numbersOfItems.mpr ⟨w, List.mem_of_getElem? hw, ht⟩
    | object fields =>
      cases s with
      | item i => cases hw
      | key key => exact mem_numbersOfFields.mpr ⟨_, mem_of_lastField hw, ht⟩
    | _ => cases s <;> cases hw

mutual

/-- The numbers that are kept were printed. -/
theorem printed_of_keep : ∀ {v w : Value}, keep numbers order v = some w → ∀ t ∈ w.numbersOf, ∃ text, numbers.read text = some t
  | .null, _, h | .bool _, _, h | .string _, _, h => by
    cases h
    nofun
  | .number text, _, h => by
    obtain ⟨n, hn, rfl⟩ := Option.map_eq_some_iff.mp h
    intro t ht
    obtain rfl := List.mem_singleton.mp ht
    exact ⟨text, hn⟩
  | .array items, _, h => by
    obtain ⟨ws, hws, rfl⟩ := Option.map_eq_some_iff.mp h
    exact printed_of_keepItems hws
  | .object fields, _, h => by
    obtain ⟨others, hothers, rfl⟩ := Option.map_eq_some_iff.mp h
    intro t ht
    obtain ⟨field, hfield, ht⟩ := mem_numbersOfFields.mp ht
    have hlast := lastField_of_mem (nodup_collectFields order others) hfield
    rw [lastField_collectFields] at hlast
    exact printed_of_keepFields hothers t (mem_numbersOfFields.mpr ⟨_, mem_of_lastField hlast, ht⟩)

theorem printed_of_keepItems : ∀ {vs ws : List Value}, keepItems numbers order vs = some ws →
    ∀ t ∈ numbersOfItems ws, ∃ text, numbers.read text = some t
  | [], _, h => by
    cases h
    nofun
  | v :: vs, _, h => by
    obtain ⟨w, hw, h⟩ := Option.bind_eq_some_iff.mp h
    obtain ⟨ws, hws, h⟩ := Option.bind_eq_some_iff.mp h
    cases h
    exact List.forall_mem_append.mpr ⟨printed_of_keep hw, printed_of_keepItems hws⟩

theorem printed_of_keepFields : ∀ {fields others : List (String × Value)}, keepFields numbers order fields = some others →
    ∀ t ∈ numbersOfFields others, ∃ text, numbers.read text = some t
  | [], _, h => by
    cases h
    nofun
  | (key, v) :: fields, _, h => by
    obtain ⟨w, hw, h⟩ := Option.bind_eq_some_iff.mp h
    obtain ⟨ws, hws, h⟩ := Option.bind_eq_some_iff.mp h
    cases h
    exact List.forall_mem_append.mpr ⟨printed_of_keep hw, printed_of_keepFields hws⟩

end

/-! ### Keeping again -/

/-- The text of a number after it was printed and read `k` times. -/
def printTimes (numbers : Numbers) : Nat → String → Option String
  | 0, text => some text
  | k + 1, text => (numbers.read text).bind (printTimes numbers k)

def again (numbers : Numbers) (order : FieldOrder) (v : Value) : Value := (keep numbers order v).getD v

/-- A value that `serde_json` holds. -/
def Kept (numbers : Numbers) (order : FieldOrder) (v : Value) : Prop := ∃ u, keep numbers order u = some v

/-- What prints for a number is in range. -/
def PrintsInRange (numbers : Numbers) : Prop :=
  ∀ text printed, numbers.read text = some printed → (numbers.read printed).isSome = true

section
variable (hrange : PrintsInRange numbers)
include hrange

theorem Kept.keep_again {v : Value} (h : Kept numbers order v) : keep numbers order v = some (again numbers order v) := by
  obtain ⟨u, hu⟩ := h
  have hsome : (keep numbers order v).isSome = true := by
    rw [keep_of_collected (keep_collected hu)]
    refine mapNumbers_isSome fun t ht => ?_
    obtain ⟨text, htext⟩ := printed_of_keep hu t ht
    exact hrange text t htext
  obtain ⟨w, hw⟩ := Option.isSome_iff_exists.mp hsome
  rw [again, hw, Option.getD_some]

theorem Kept.again {v : Value} (h : Kept numbers order v) : Kept numbers order (again numbers order v) := ⟨v, h.keep_again hrange⟩

theorem Kept.printTimes {v : Value} (h : Kept numbers order v) (k : Nat) :
    mapNumbers (Value.printTimes numbers k) v = some ((Value.again numbers order)^[k] v) := by
  induction k generalizing v with
  | zero => exact mapNumbers_self_iff.mpr fun _ _ => rfl
  | succ k ih =>
    have hstep := h.keep_again hrange
    obtain ⟨u, hu⟩ := h
    rw [keep_of_collected (keep_collected hu)] at hstep
    have hcomp := mapNumbers_bind (f := numbers.read) (g := Value.printTimes numbers k) v
    rw [hstep, Option.bind_some, ih (Kept.again hrange ⟨u, hu⟩)] at hcomp
    exact hcomp.symm

/-- What is kept is the same value after `k` times where its numbers are. -/
theorem Kept.iterate_eq_iff {v : Value} (h : Kept numbers order v) (k : Nat) :
    (Value.again numbers order)^[k] v = v ↔ ∀ t ∈ v.numbersOf, Value.printTimes numbers k t = some t := by
  rw [← mapNumbers_self_iff, Kept.printTimes hrange h k, Option.some.injEq]

end

end

/-! ## The strings of a value -/

mutual

/-- Every string of a value, the keys too. -/
def texts : Value → List String
  | string s => [s]
  | array items => textsOfItems items
  | object fields => textsOfFields fields
  | _ => []

def textsOfItems : List Value → List String
  | [] => []
  | v :: vs => v.texts ++ textsOfItems vs

def textsOfFields : List (String × Value) → List String
  | [] => []
  | (key, v) :: fields => key :: v.texts ++ textsOfFields fields

end

end Llmctl.Value
