import Llmctl.Text.Paths

/-!
# Strings in JSON

The strings that stand anywhere in a value, its keys among them, also where a key comes
again later.
-/

namespace Llmctl.Value

mutual

def stringsOf : Value → List String
  | string text => [text]
  | array items => stringsOfItems items
  | object fields => stringsOfFields fields
  | _ => []

def stringsOfItems : List Value → List String
  | [] => []
  | v :: vs => v.stringsOf ++ stringsOfItems vs

def stringsOfFields : List (String × Value) → List String
  | [] => []
  | (key, v) :: fields => key :: v.stringsOf ++ stringsOfFields fields

end

theorem mem_stringsOfFields {text : String} {fields : List (String × Value)} :
    text ∈ stringsOfFields fields ↔ ∃ field ∈ fields, text = field.1 ∨ text ∈ field.2.stringsOf := by
  induction fields with
  | nil => simp [stringsOfFields]
  | cons field fields ih => simp [stringsOfFields, ih, or_assoc]

section
variable {numbers : Numbers} {order : FieldOrder}

mutual

/-- What is kept of a value has no other strings. -/
theorem stringsOf_keep : ∀ {v w : Value}, keep numbers order v = some w → w.stringsOf ⊆ v.stringsOf
  | .null, _, h | .bool _, _, h | .string _, _, h => by
    cases h
    exact List.Subset.refl _
  | .number _, _, h => by
    obtain ⟨n, -, rfl⟩ := Option.map_eq_some_iff.mp h
    exact List.Subset.refl _
  | .array items, _, h => by
    obtain ⟨ws, hws, rfl⟩ := Option.map_eq_some_iff.mp h
    exact stringsOfItems_keep hws
  | .object fields, _, h => by
    obtain ⟨others, hothers, rfl⟩ := Option.map_eq_some_iff.mp h
    intro text htext
    obtain ⟨field, hmem, htext⟩ := mem_stringsOfFields.mp htext
    have hlast := lastField_of_mem (nodup_collectFields order others) hmem
    rw [lastField_collectFields] at hlast
    exact stringsOfFields_keep hothers (mem_stringsOfFields.mpr ⟨_, mem_of_lastField hlast, htext⟩)

theorem stringsOfItems_keep : ∀ {vs ws : List Value}, keepItems numbers order vs = some ws →
    stringsOfItems ws ⊆ stringsOfItems vs
  | [], _, h => by
    cases h
    exact List.Subset.refl _
  | v :: vs, _, h => by
    obtain ⟨w, hw, h⟩ := Option.bind_eq_some_iff.mp h
    obtain ⟨ws, hws, h⟩ := Option.bind_eq_some_iff.mp h
    cases h
    exact List.append_subset.mpr ⟨List.subset_append_of_subset_left _ (stringsOf_keep hw),
      List.subset_append_of_subset_right _ (stringsOfItems_keep hws)⟩

theorem stringsOfFields_keep : ∀ {fields others : List (String × Value)}, keepFields numbers order fields = some others →
    stringsOfFields others ⊆ stringsOfFields fields
  | [], _, h => by
    cases h
    exact List.Subset.refl _
  | (key, v) :: fields, _, h => by
    obtain ⟨w, hw, h⟩ := Option.bind_eq_some_iff.mp h
    obtain ⟨ws, hws, h⟩ := Option.bind_eq_some_iff.mp h
    cases h
    exact List.cons_subset_cons _ (List.append_subset.mpr ⟨List.subset_append_of_subset_left _ (stringsOf_keep hw),
      List.subset_append_of_subset_right _ (stringsOfFields_keep hws)⟩)

end

end

end Llmctl.Value
