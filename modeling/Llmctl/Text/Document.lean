import Llmctl.Text.Continued
import Mathlib.Data.List.Induction
import Mathlib.Data.List.Sort
import Mathlib.Data.String.Basic

/-!
# JSON documents

What `serde_json` keeps of a text that it reads: the last of the fields with one key, in
the order of its map, and its numbers as they print. Two documents are equal whatever the
order of their fields, and the canonical text of one says all but this order.
-/

namespace Llmctl

/-- The number type of `serde_json`: what prints for a number that was read, or nothing where
it is out of range. -/
structure Numbers where
  read : String → Option String
  printed : ∀ {text number}, read text = some number → Value.isNumber number = true
  nat : ∀ n < 2 ^ 64, read n.repr = some n.repr

/-- Numbers that print as they were written, which a feature of `serde_json` gives. -/
def Numbers.written : Numbers where
  read text := if Value.isNumber text then some text else none
  printed {text number} h := by
    split at h
    · rename_i hn
      cases h
      exact hn
    · cases h
  nat n _ := by
    have hn : Value.isNumber n.repr = true := Value.isNumber_repr n
    rw [if_pos hn]

/-- A map lists its fields by their keys or as they were inserted, which a feature of
`serde_json` decides. -/
inductive FieldOrder where
  | sorted
  | inserted
  deriving DecidableEq

namespace Value

/-! ## Maps -/

def sortFields (fields : List (String × Value)) : List (String × Value) :=
  fields.insertionSort fun a b => a.1 ≤ b.1

/-- `Map::insert` -/
def insertField (key : String) (v : Value) : List (String × Value) → List (String × Value)
  | [] => [(key, v)]
  | field :: fields => if field.1 = key then (key, v) :: fields else field :: insertField key v fields

/-- The fields of a map after these were inserted. -/
def collectFields (order : FieldOrder) (fields : List (String × Value)) : List (String × Value) :=
  let fields := fields.foldl (fun map field => insertField field.1 field.2 map) []
  match order with
  | .sorted => sortFields fields
  | .inserted => fields

/-- `json!` of an object -/
def json (order : FieldOrder) (fields : List (String × Value)) : Value := object (collectFields order fields)

/-- `v[key] = w` of an object -/
def setField (v : Value) (order : FieldOrder) (key : String) (w : Value) : Value :=
  match v with
  | object fields => json order (fields ++ [(key, w)])
  | v => v

def lookup (key : String) (fields : List (String × Value)) : Option Value :=
  (fields.find? fun field => field.1 == key).map (·.2)

/-- `Map::remove` -/
def removeField (key : String) : Value → Value
  | object fields => object (fields.filter fun field => field.1 != key)
  | v => v

/-- `Value::as_u64`; an integer that does not fit prints with a point or an exponent. -/
def asU64 : Value → Option Nat
  | number text =>
    if text.toList ≠ [] ∧ text.toList.all Char.isDigit then
      let n := Nat.ofDigitChars 10 text.toList 0
      if n < 2 ^ 64 then some n else none
    else none
  | _ => none

def asBool : Value → Option Bool
  | bool b => some b
  | _ => none

/-! ## Reading -/

section
variable (numbers : Numbers) (order : FieldOrder)

mutual

/-- What is kept of a value of a text. -/
def keep : Value → Option Value
  | number text => (numbers.read text).map number
  | array items => (keepItems items).map array
  | object fields => (keepFields fields).map fun fields => object (collectFields order fields)
  | v => some v

def keepItems : List Value → Option (List Value)
  | [] => some []
  | v :: vs => do
    let v ← keep v
    let vs ← keepItems vs
    some (v :: vs)

def keepFields : List (String × Value) → Option (List (String × Value))
  | [] => some []
  | (key, v) :: fields => do
    let v ← keep v
    let fields ← keepFields fields
    some ((key, v) :: fields)

end

/-- `serde_json::from_str::<Value>` -/
def read (text : String) : Option Value := (fromStr text).bind (keep numbers order)

end

/-! ## Equality -/

mutual

/-- `Value::eq`: the order of the fields makes no difference. -/
def same : Value → Value → Bool
  | null, null => true
  | bool a, bool b => a == b
  | number a, number b => a == b
  | string a, string b => a == b
  | array vs, array ws => sameItems vs ws
  | object fields, object others => fields.length == others.length && sameFields fields others
  | _, _ => false

def sameItems : List Value → List Value → Bool
  | [], [] => true
  | v :: vs, w :: ws => same v w && sameItems vs ws
  | _, _ => false

def sameFields : List (String × Value) → List (String × Value) → Bool
  | [], _ => true
  | (key, v) :: fields, others => (lookup key others).any (same v) && sameFields fields others

end

/-! ## Canonical text -/

mutual

/-- The values are canonicalized before their keys are sorted here, not after. -/
def canonicalizeValue : Value → Value
  | array items => array (canonicalizeItems items)
  | object fields => object (sortFields (canonicalizeFields fields))
  | scalar => scalar

def canonicalizeItems : List Value → List Value
  | [] => []
  | v :: vs => canonicalizeValue v :: canonicalizeItems vs

def canonicalizeFields : List (String × Value) → List (String × Value)
  | [] => []
  | (key, v) :: fields => (key, canonicalizeValue v) :: canonicalizeFields fields

end

def canonicalJson (v : Value) : String := (canonicalizeValue v).render

/-! ## What a document is -/

mutual

/-- A value that `serde_json` can hold: its numbers are numbers, and no key stands twice. -/
def Document : Value → Prop
  | number text => isNumber text = true
  | array items => DocumentItems items
  | object fields => (fields.map (·.1)).Nodup ∧ DocumentFields fields
  | _ => True

def DocumentItems : List Value → Prop
  | [] => True
  | v :: vs => v.Document ∧ DocumentItems vs

def DocumentFields : List (String × Value) → Prop
  | [] => True
  | (_, v) :: fields => v.Document ∧ DocumentFields fields

end

theorem documentFields_iff {fields : List (String × Value)} : DocumentFields fields ↔ ∀ field ∈ fields, field.2.Document := by
  induction fields with
  | nil => simp [DocumentFields]
  | cons field fields ih => simp [DocumentFields, ih]

theorem numericFields_iff {fields : List (String × Value)} : NumericFields fields ↔ ∀ field ∈ fields, field.2.Numeric := by
  induction fields with
  | nil => simp [NumericFields]
  | cons field fields ih => simp [NumericFields, ih]

theorem asU64_repr {n : Nat} (h : n < 2 ^ 64) : asU64 (number n.repr) = some n := by
  have hdigits : (Nat.toDigits 10 n).all Char.isDigit = true :=
    List.all_eq_true.mpr fun c hc => Nat.isDigit_of_mem_toDigits (by decide) (by decide) hc
  simp only [asU64]
  rw [Nat.toList_repr, if_pos ⟨Nat.toDigits_ne_nil, hdigits⟩]
  simp only [Nat.ofDigitChars_ten_toDigits]
  rw [if_pos h]

theorem digitChar_sub {c : Char} (h : c.isDigit = true) :
    (c.toNat - '0'.toNat).digitChar = c ∧ c.toNat - '0'.toNat < 10 := by
  have hzero : '0'.toNat = 48 := rfl
  have hrange : 48 ≤ c.toNat ∧ c.toNat ≤ 57 := by
    simpa [Char.isDigit, UInt32.le_iff_toNat_le, ← Char.toNat_val] using h
  have hall : ∀ n < 10, (n : Nat).digitChar = Char.ofNat (48 + n) := by decide
  rw [hzero]
  refine ⟨?_, by omega⟩
  rw [hall _ (by omega), show 48 + (c.toNat - 48) = c.toNat by omega, Char.ofNat_toNat]

/-- Digits without a leading zero are those of their number. -/
theorem toDigits_ofDigitChars {cs : List Char} (hdigits : ∀ c ∈ cs, c.isDigit = true) (hne : cs ≠ [])
    (hzero : ∀ s, cs = '0' :: s → s = []) : Nat.toDigits 10 (Nat.ofDigitChars 10 cs 0) = cs := by
  induction cs using List.reverseRecOn with
  | nil => exact absurd rfl hne
  | append_singleton ds c ih =>
    obtain ⟨hchar, hlt⟩ := digitChar_sub (hdigits c (by simp))
    rw [Nat.ofDigitChars_append, Nat.ofDigitChars_cons, Nat.ofDigitChars_nil]
    by_cases hds : ds = []
    · subst hds
      rw [Nat.ofDigitChars_nil, Nat.mul_zero, Nat.zero_add, Nat.toDigits_of_lt_base hlt]
      exact congrArg (fun d => [d]) hchar
    · have hhead : ∀ s, ds ≠ '0' :: s := by
        intro s hs
        have hnil := hzero (s ++ [c]) (by rw [hs]; rfl)
        simp at hnil
      have hds' := ih (fun d hd => hdigits d (List.mem_append_left _ hd)) hds fun s hs => absurd hs (hhead s)
      have hpos : 0 < Nat.ofDigitChars 10 ds 0 := by
        by_contra hnot
        rw [Nat.eq_zero_of_not_pos hnot] at hds'
        exact hhead [] hds'.symm
      rw [← Nat.toDigits_append_toDigits (by decide) hpos hlt, hds', Nat.toDigits_of_lt_base hlt]
      exact congrArg (fun d => ds ++ [d]) hchar

theorem parseInt_isNumber {text : String} (h : isNumber text = true) (hdigits : ∀ c ∈ text.toList, c.isDigit = true) :
    ∀ s, text.toList = '0' :: s → s = [] := by
  intro s hs
  by_contra hne
  obtain ⟨c, s, rfl⟩ := List.exists_cons_of_ne_nil hne
  have hsign : parseSign text.toList = ([], text.toList) := parseSign_digit fun d hd => hdigits d (List.mem_of_mem_head? hd)
  have hspan : text.toList.span Char.isDigit = (text.toList, []) := by
    have happend := span_digits hdigits ends_nil
    rwa [List.append_nil] at happend
  have hint : parseInt text.toList = none := by
    unfold parseInt
    rw [hspan, hs]
    rfl
  simp [isNumber, parseNumber, hsign, hint] at h

/-- An integer that is read prints as its digits. -/
theorem repr_of_asU64 {text : String} {n : Nat} (hnumber : isNumber text = true) (h : asU64 (number text) = some n) :
    n < 2 ^ 64 ∧ n.repr = text := by
  simp only [asU64] at h
  split at h
  · rename_i hdigits
    split at h
    · rename_i hlt
      have hall := List.all_eq_true.mp hdigits.2
      obtain rfl : Nat.ofDigitChars 10 text.toList 0 = n := Option.some.inj h
      refine ⟨hlt, String.toList_inj.mp ?_⟩
      rw [Nat.toList_repr]
      exact toDigits_ofDigitChars hall hdigits.1 (parseInt_isNumber hnumber hall)
    · cases h
  · cases h

theorem perm_sortFields (fields : List (String × Value)) : (sortFields fields).Perm fields :=
  List.perm_insertionSort _ fields

/-! ### Maps with distinct keys -/

theorem lookup_of_mem {fields : List (String × Value)} (hnodup : (fields.map (·.1)).Nodup) {key : String} {v : Value}
    (h : (key, v) ∈ fields) : lookup key fields = some v := by
  unfold lookup
  induction fields with
  | nil => cases h
  | cons field fields ih =>
    rw [List.map_cons, List.nodup_cons] at hnodup
    rcases List.mem_cons.mp h with rfl | hmem
    · simp
    · have hne : field.1 ≠ key := by
        rintro rfl
        exact hnodup.1 (List.mem_map.mpr ⟨_, hmem, rfl⟩)
      rw [List.find?_cons_of_neg (by simpa using hne)]
      exact ih hnodup.2 hmem

theorem insertField_new {key : String} {v : Value} {fields : List (String × Value)} (h : key ∉ fields.map (·.1)) :
    insertField key v fields = fields ++ [(key, v)] := by
  induction fields with
  | nil => rfl
  | cons field fields ih =>
    rw [List.map_cons, List.mem_cons, not_or] at h
    rw [insertField, if_neg (Ne.symm h.1), ih h.2, List.cons_append]

theorem foldl_insertField {fields map : List (String × Value)} (h : ((map ++ fields).map (·.1)).Nodup) :
    fields.foldl (fun map field => insertField field.1 field.2 map) map = map ++ fields := by
  induction fields generalizing map with
  | nil => simp
  | cons field fields ih =>
    have hnew : field.1 ∉ map.map (·.1) := by
      rw [List.map_append, List.map_cons] at h
      exact fun hmem => (List.disjoint_of_nodup_append h) hmem List.mem_cons_self
    have happ : map ++ field :: fields = (map ++ [field]) ++ fields := by simp
    rw [happ] at h ⊢
    rw [List.foldl_cons, insertField_new hnew, ih h]

theorem collectFields_of_nodup (order : FieldOrder) {fields : List (String × Value)} (h : (fields.map (·.1)).Nodup) :
    collectFields order fields = match order with
      | .sorted => sortFields fields
      | .inserted => fields := by
  have hfold : fields.foldl (fun map field => insertField field.1 field.2 map) [] = [] ++ fields := foldl_insertField h
  rw [List.nil_append] at hfold
  unfold collectFields
  rw [hfold]

theorem perm_collectFields (order : FieldOrder) {fields : List (String × Value)} (h : (fields.map (·.1)).Nodup) :
    (collectFields order fields).Perm fields := by
  rw [collectFields_of_nodup order h]
  cases order with
  | sorted => exact perm_sortFields fields
  | inserted => exact .refl _

theorem pairwise_sortFields (fields : List (String × Value)) : (sortFields fields).Pairwise fun a b => a.1 ≤ b.1 := by
  have : Std.Total (fun a b : String × Value => a.1 ≤ b.1) := ⟨fun a b => le_total a.1 b.1⟩
  have : IsTrans (String × Value) (fun a b => a.1 ≤ b.1) := ⟨fun _ _ _ => le_trans⟩
  exact List.pairwise_insertionSort _ fields

theorem sortFields_sortFields (fields : List (String × Value)) : sortFields (sortFields fields) = sortFields fields :=
  (pairwise_sortFields fields).insertionSort_eq

/-- Of fields with distinct keys, the order is lost. -/
theorem sortFields_perm {fields others : List (String × Value)} (hnodup : (fields.map (·.1)).Nodup)
    (h : fields.Perm others) : sortFields fields = sortFields others := by
  refine List.Perm.eq_of_pairwise ?_ (pairwise_sortFields fields) (pairwise_sortFields others)
    ((perm_sortFields fields).trans (h.trans (perm_sortFields others).symm))
  intro a b ha hb hab hba
  have ha := (perm_sortFields fields).mem_iff.mp ha
  have hb := h.mem_iff.mpr ((perm_sortFields others).mem_iff.mp hb)
  exact List.inj_on_of_nodup_map hnodup ha hb (le_antisymm hab hba)

/-- A map that is listed and filled again is the same map. -/
theorem collectFields_collectFields (order : FieldOrder) {fields : List (String × Value)} (h : (fields.map (·.1)).Nodup) :
    collectFields order (collectFields order fields) = collectFields order fields := by
  have hnodup : ((collectFields order fields).map (·.1)).Nodup := ((perm_collectFields order h).map _).nodup_iff.mpr h
  rw [collectFields_of_nodup order hnodup]
  cases order with
  | sorted =>
    rw [collectFields_of_nodup _ h]
    exact sortFields_sortFields fields
  | inserted => rfl

theorem get_json {order : FieldOrder} {fields : List (String × Value)} (h : (fields.map (·.1)).Nodup) {key : String} {v : Value}
    (hmem : (key, v) ∈ fields) : (json order fields).get key = some v := by
  have hperm := perm_collectFields order h
  exact lookup_of_mem ((hperm.map _).nodup_iff.mpr h) (hperm.mem_iff.mpr hmem)

/-- A field that is new to a map. -/
theorem setField_json (order : FieldOrder) {fields : List (String × Value)} (h : (fields.map (·.1)).Nodup) {key : String}
    (hkey : key ∉ fields.map (·.1)) (w : Value) :
    ∃ all, (json order fields).setField order key w = json order all ∧ (all.map (·.1)).Nodup ∧
      all.Perm ((key, w) :: fields) := by
  have hperm : (collectFields order fields ++ [(key, w)]).Perm ((key, w) :: fields) :=
    List.perm_append_comm.trans ((perm_collectFields order h).cons _)
  refine ⟨_, rfl, (hperm.map _).nodup_iff.mpr ?_, hperm⟩
  rw [List.map_cons, List.nodup_cons]
  exact ⟨hkey, h⟩

theorem keepFields_self {numbers : Numbers} {order : FieldOrder} {fields : List (String × Value)}
    (h : ∀ field ∈ fields, keep numbers order field.2 = some field.2) : keepFields numbers order fields = some fields := by
  induction fields with
  | nil => rfl
  | cons field fields ih =>
    obtain ⟨hfield, hfields⟩ := List.forall_mem_cons.mp h
    simp [keepFields, hfield, ih hfields]

/-- The text of an object is read as this object. -/
theorem read_json {numbers : Numbers} {order : FieldOrder} {fields : List (String × Value)}
    (hnodup : (fields.map (·.1)).Nodup) (hnumeric : ∀ field ∈ fields, field.2.Numeric)
    (hkeep : ∀ field ∈ fields, keep numbers order field.2 = some field.2) :
    read numbers order (json order fields).render = some (json order fields) := by
  have hperm := perm_collectFields order hnodup
  have hobject : (json order fields).Numeric := by
    rw [json, Numeric, numericFields_iff]
    exact fun field hmem => hnumeric field (hperm.mem_iff.mp hmem)
  have hfields := keepFields_self fun field hmem => hkeep field (hperm.mem_iff.mp hmem)
  rw [read, fromStr_render hobject, Option.bind_some, json, keep, hfields, Option.map_some,
    collectFields_collectFields order hnodup]

/-! ### Canonical text is read back -/

mutual

theorem canonicalizeValue_numeric : ∀ (v : Value), v.Document → (canonicalizeValue v).Numeric
  | .null, _ | .bool _, _ | .string _, _ => trivial
  | .number _, h => h
  | .array items, h => canonicalizeItems_numeric items h
  | .object fields, h => by
    have hfields := canonicalizeFields_numeric fields h.2
    rw [numericFields_iff] at hfields
    rw [canonicalizeValue, Numeric, numericFields_iff]
    intro field hmem
    exact hfields field ((perm_sortFields _).mem_iff.mp hmem)

theorem canonicalizeItems_numeric : ∀ (vs : List Value), DocumentItems vs → NumericItems (canonicalizeItems vs)
  | [], _ => trivial
  | v :: vs, h => ⟨canonicalizeValue_numeric v h.1, canonicalizeItems_numeric vs h.2⟩

theorem canonicalizeFields_numeric : ∀ (fields : List (String × Value)), DocumentFields fields →
    NumericFields (canonicalizeFields fields)
  | [], _ => trivial
  | (_, v) :: fields, h => ⟨canonicalizeValue_numeric v h.1, canonicalizeFields_numeric fields h.2⟩

end

theorem canonicalizeValue_of_canonicalJson {v w : Value} (hv : v.Document) (hw : w.Document)
    (h : canonicalJson v = canonicalJson w) : canonicalizeValue v = canonicalizeValue w := by
  have hread := fromStr_render (canonicalizeValue_numeric v hv)
  have hread' := fromStr_render (canonicalizeValue_numeric w hw)
  unfold canonicalJson at h
  rw [h, hread'] at hread
  exact (Option.some.inj hread).symm

theorem canonicalizeFields_eq_map (fields : List (String × Value)) :
    canonicalizeFields fields = fields.map fun field => (field.1, canonicalizeValue field.2) := by
  induction fields with
  | nil => rfl
  | cons field fields ih => rw [canonicalizeFields, ih, List.map_cons]

theorem canonicalJson_perm {fields others : List (String × Value)} (hnodup : (fields.map (·.1)).Nodup)
    (h : fields.Perm others) : canonicalJson (object fields) = canonicalJson (object others) := by
  have hkeys : ((canonicalizeFields fields).map (·.1)).Nodup := by
    rw [canonicalizeFields_eq_map, List.map_map]
    exact hnodup
  have hperm : (canonicalizeFields fields).Perm (canonicalizeFields others) := by
    simp only [canonicalizeFields_eq_map]
    exact h.map _
  unfold canonicalJson
  rw [canonicalizeValue, canonicalizeValue, sortFields_perm hkeys hperm]

/-! ### Values with one canonical form are equal -/

mutual

theorem same_of_canonicalizeValue : ∀ (v w : Value), v.Document → w.Document →
    canonicalizeValue v = canonicalizeValue w → same v w = true
  | .null, w, _, _, h => by
    cases w <;> simp [canonicalizeValue, same] at h ⊢
  | .bool b, w, _, _, h => by
    cases w <;> simp [canonicalizeValue, same] at h ⊢
    exact h
  | .number text, w, _, _, h => by
    cases w <;> simp [canonicalizeValue, same] at h ⊢
    exact h
  | .string s, w, _, _, h => by
    cases w <;> simp [canonicalizeValue, same] at h ⊢
    exact h
  | .array items, w, hv, hw, h => by
    cases w <;> simp [canonicalizeValue, same] at h ⊢
    rename_i others
    exact sameItems_of_canonicalizeItems items others hv hw h
  | .object fields, w, hv, hw, h => by
    cases w <;> simp [canonicalizeValue, same] at h ⊢
    rename_i others
    have hperm : (canonicalizeFields fields).Perm (canonicalizeFields others) :=
      ((perm_sortFields _).symm.trans (by rw [h])).trans (perm_sortFields _)
    have hlength := hperm.length_eq
    simp only [canonicalizeFields_eq_map, List.length_map] at hlength
    exact ⟨hlength, sameFields_of_canonicalizeFields fields others hv.2 hw fun field hmem => hperm.mem_iff.mp hmem⟩

theorem sameItems_of_canonicalizeItems : ∀ (vs ws : List Value), DocumentItems vs → DocumentItems ws →
    canonicalizeItems vs = canonicalizeItems ws → sameItems vs ws = true
  | [], [], _, _, _ => rfl
  | [], _ :: _, _, _, h => by cases h
  | _ :: _, [], _, _, h => by cases h
  | v :: vs, w :: ws, hv, hw, h => by
    obtain ⟨hhead, htail⟩ := List.cons.inj h
    rw [sameItems, same_of_canonicalizeValue v w hv.1 hw.1 hhead,
      sameItems_of_canonicalizeItems vs ws hv.2 hw.2 htail]
    rfl

theorem sameFields_of_canonicalizeFields : ∀ (fields others : List (String × Value)), DocumentFields fields →
    (object others).Document → (∀ field ∈ canonicalizeFields fields, field ∈ canonicalizeFields others) →
    sameFields fields others = true
  | [], _, _, _, _ => rfl
  | (key, v) :: fields, others, hv, hw, h => by
    obtain ⟨hhead, htail⟩ := List.forall_mem_cons.mp h
    rw [canonicalizeFields_eq_map] at hhead
    obtain ⟨⟨key', w⟩, hmem, heq⟩ := List.mem_map.mp hhead
    obtain ⟨rfl, hcanonical⟩ := Prod.mk.inj heq
    have hdocument := documentFields_iff.mp hw.2 _ hmem
    rw [sameFields, lookup_of_mem hw.1 hmem, sameFields_of_canonicalizeFields fields others hv.2 hw htail]
    simp [same_of_canonicalizeValue v w hv.1 hdocument hcanonical.symm]

end

/-- Objects whose canonical fields are the same ones are equal. -/
theorem same_object {fields others : List (String × Value)} (hv : (object fields).Document) (hw : (object others).Document)
    (h : (canonicalizeFields fields).Perm (canonicalizeFields others)) : same (object fields) (object others) = true := by
  have hlength := h.length_eq
  simp only [canonicalizeFields_eq_map, List.length_map] at hlength
  rw [same, hlength, beq_self_eq_true, Bool.true_and]
  exact sameFields_of_canonicalizeFields fields others hv.2 hw fun field hmem => h.mem_iff.mp hmem

/-! ### Fields that are left out -/

theorem removeField_document {key : String} {v : Value} (h : v.Document) : (removeField key v).Document := by
  cases v with
  | object fields =>
    have hsub := List.filter_sublist (p := fun field : String × Value => field.1 != key) (l := fields)
    refine ⟨h.1.sublist (hsub.map _), documentFields_iff.mpr fun field hmem => ?_⟩
    exact documentFields_iff.mp h.2 field (hsub.subset hmem)
  | _ => exact h

theorem filter_of_not_mem {key : String} {fields : List (String × Value)} (h : key ∉ fields.map (·.1)) :
    (fields.filter fun field => field.1 != key) = fields := by
  rw [List.filter_eq_self]
  intro field hmem
  have hne : field.1 ≠ key := by
    rintro rfl
    exact h (List.mem_map.mpr ⟨_, hmem, rfl⟩)
  simpa using hne

theorem removeField_of_not_mem {key : String} {fields : List (String × Value)} (h : key ∉ fields.map (·.1)) :
    removeField key (object fields) = object fields := by
  rw [removeField, filter_of_not_mem h]

theorem perm_removed {fields : List (String × Value)} (hnodup : (fields.map (·.1)).Nodup) {key : String} {v : Value}
    (h : (key, v) ∈ fields) : fields.Perm ((key, v) :: fields.filter fun field => field.1 != key) := by
  induction fields with
  | nil => cases h
  | cons field fields ih =>
    rw [List.map_cons, List.nodup_cons] at hnodup
    rcases List.mem_cons.mp h with rfl | hmem
    · rw [List.filter_cons_of_neg (by simp), filter_of_not_mem hnodup.1]
    · have hne : field.1 ≠ key := by
        rintro rfl
        exact hnodup.1 (List.mem_map.mpr ⟨_, hmem, rfl⟩)
      rw [List.filter_cons_of_pos (by simpa using hne)]
      exact ((ih hnodup.2 hmem).cons field).trans (.swap _ _ _)

/-- Without the field that was set, a map has its old canonical text. -/
theorem canonicalJson_removeField {order : FieldOrder} {fields all : List (String × Value)} {key : String} {w : Value}
    (hnodup : (all.map (·.1)).Nodup) (hperm : all.Perm ((key, w) :: fields)) :
    canonicalJson (removeField key (json order all)) = canonicalJson (json order fields) := by
  have hcons : (((key, w) :: fields).map (·.1)).Nodup := (hperm.map _).nodup_iff.mp hnodup
  rw [List.map_cons, List.nodup_cons] at hcons
  have hcollected := perm_collectFields order hnodup
  have hrest : ((collectFields order all).filter fun field => field.1 != key).Perm fields := by
    have hall := (hcollected.trans hperm).filter fun field : String × Value => field.1 != key
    rwa [List.filter_cons_of_neg (by simp), filter_of_not_mem hcons.1] at hall
  have hkeys : (((collectFields order all).filter fun field => field.1 != key).map (·.1)).Nodup :=
    (hrest.map _).nodup_iff.mpr hcons.2
  exact canonicalJson_perm hkeys (hrest.trans (perm_collectFields order hcons.2).symm)

theorem mem_of_get {key : String} {fields : List (String × Value)} {v : Value} (h : (object fields).get key = some v) :
    (key, v) ∈ fields := by
  obtain ⟨⟨key', w⟩, hfind, heq⟩ := Option.map_eq_some_iff.mp h
  obtain rfl : w = v := heq
  have hkey : key' = key := by simpa using List.find?_some hfind
  rw [← hkey]
  exact List.mem_of_find?_eq_some hfind

/-- Objects that agree on one field have the same canonical fields if they do without it. -/
theorem perm_of_removed {key : String} {v v' w : Value} (hv : v.Document) (hv' : v'.Document) (hget : v.get key = some w)
    (hget' : v'.get key = some w)
    (h : canonicalJson (removeField key v) = canonicalJson (removeField key v')) :
    ∃ fields others, v = object fields ∧ v' = object others ∧
      (canonicalizeFields fields).Perm (canonicalizeFields others) := by
  have hcanonical := canonicalizeValue_of_canonicalJson (removeField_document hv) (removeField_document hv') h
  cases v with
  | object fields =>
    cases v' with
    | object others =>
      have hsorted : sortFields _ = sortFields _ := Value.object.inj hcanonical
      have hrest := (perm_sortFields _).symm.trans ((List.Perm.of_eq hsorted).trans (perm_sortFields _))
      have hall := (perm_removed hv.1 (mem_of_get hget)).map fun field => (field.1, canonicalizeValue field.2)
      have hall' := (perm_removed hv'.1 (mem_of_get hget')).map fun field => (field.1, canonicalizeValue field.2)
      refine ⟨fields, others, rfl, rfl, ?_⟩
      simp only [canonicalizeFields_eq_map] at hrest ⊢
      exact (hall.trans (hrest.cons _)).trans hall'.symm
    | _ => cases hget'
  | _ => cases hget

theorem canonicalizeValue_string {v : Value} {s : String} (h : canonicalizeValue v = string s) : v = string s := by
  cases v <;> simp [canonicalizeValue] at h
  rw [h]

/-- The strings of an object are those of its canonical fields. -/
theorem get_asStr_iff {fields : List (String × Value)} (h : (fields.map (·.1)).Nodup) {key s : String} :
    ((object fields).get key).bind asStr = some s ↔ (key, string s) ∈ canonicalizeFields fields := by
  rw [canonicalizeFields_eq_map, List.mem_map]
  constructor
  · intro hget
    obtain ⟨v, hv, hs⟩ := Option.bind_eq_some_iff.mp hget
    refine ⟨(key, v), mem_of_get hv, ?_⟩
    cases v with
    | string t =>
      obtain rfl := Option.some.inj hs
      rfl
    | _ => cases hs
  · rintro ⟨⟨key', v⟩, hmem, heq⟩
    obtain ⟨rfl, hv⟩ := Prod.mk.inj heq
    have hstring : v = string s := canonicalizeValue_string hv
    have hget : (object fields).get key' = some v := lookup_of_mem h hmem
    rw [hget, hstring]
    rfl

/-! ### Equal values have one canonical form -/

mutual

theorem canonicalizeValue_of_same : ∀ (v w : Value), v.Document → w.Document → same v w = true →
    canonicalizeValue v = canonicalizeValue w
  | .null, w, _, _, h => by
    cases w <;> simp [canonicalizeValue, same] at h ⊢
  | .bool b, w, _, _, h => by
    cases w <;> simp [canonicalizeValue, same] at h ⊢
    exact h
  | .number text, w, _, _, h => by
    cases w <;> simp [canonicalizeValue, same] at h ⊢
    exact h
  | .string s, w, _, _, h => by
    cases w <;> simp [canonicalizeValue, same] at h ⊢
    exact h
  | .array items, w, hv, hw, h => by
    cases w <;> simp [canonicalizeValue, same] at h ⊢
    rename_i others
    exact canonicalizeItems_of_same items others hv hw h
  | .object fields, w, hv, hw, h => by
    cases w <;> simp [canonicalizeValue, same] at h ⊢
    rename_i others
    have hsub := canonicalizeFields_of_same fields others hv.2 hw h.2
    have hnodup {fields : List (String × Value)} (h : (fields.map (·.1)).Nodup) : ((canonicalizeFields fields).map (·.1)).Nodup := by
      rw [canonicalizeFields_eq_map, List.map_map]
      exact h
    refine sortFields_perm (hnodup hv.1) ((List.subperm_of_subset (hnodup hv.1).of_map hsub).perm_of_length_le ?_)
    rw [canonicalizeFields_eq_map, canonicalizeFields_eq_map, List.length_map, List.length_map, h.1]

theorem canonicalizeItems_of_same : ∀ (vs ws : List Value), DocumentItems vs → DocumentItems ws → sameItems vs ws = true →
    canonicalizeItems vs = canonicalizeItems ws
  | [], [], _, _, _ => rfl
  | [], _ :: _, _, _, h => by cases h
  | _ :: _, [], _, _, h => by cases h
  | v :: vs, w :: ws, hv, hw, h => by
    obtain ⟨hhead, htail⟩ := Bool.and_eq_true_iff.mp h
    rw [canonicalizeItems, canonicalizeItems, canonicalizeValue_of_same v w hv.1 hw.1 hhead,
      canonicalizeItems_of_same vs ws hv.2 hw.2 htail]

theorem canonicalizeFields_of_same : ∀ (fields others : List (String × Value)), DocumentFields fields →
    (object others).Document → sameFields fields others = true → canonicalizeFields fields ⊆ canonicalizeFields others
  | [], _, _, _, _ => List.nil_subset _
  | (key, v) :: fields, others, hv, hw, h => by
    obtain ⟨hhead, htail⟩ := Bool.and_eq_true_iff.mp h
    obtain ⟨w, hlookup, hsame⟩ := (Option.any_eq_true _ _).mp hhead
    have hmem := mem_of_get hlookup
    have hcanonical := canonicalizeValue_of_same v w hv.1 (documentFields_iff.mp hw.2 _ hmem) hsame
    refine List.cons_subset.mpr ⟨?_, canonicalizeFields_of_same fields others hv.2 hw htail⟩
    rw [hcanonical, canonicalizeFields_eq_map]
    exact List.mem_map.mpr ⟨(key, w), hmem, rfl⟩

end

/-- The canonical texts of two documents are equal just where the documents are. -/
theorem canonicalJson_eq_iff {v w : Value} (hv : v.Document) (hw : w.Document) :
    canonicalJson v = canonicalJson w ↔ same v w = true := by
  constructor
  · intro h
    exact same_of_canonicalizeValue v w hv hw (canonicalizeValue_of_canonicalJson hv hw h)
  · intro h
    rw [canonicalJson, canonicalJson, canonicalizeValue_of_same v w hv hw h]

/-- A field of an object is one of every object that equals it. -/
theorem get_of_same {v w : Value} (h : same v w = true) {key : String} {a : Value} (hget : v.get key = some a) :
    ∃ b, w.get key = some b ∧ same a b = true := by
  cases v with
  | object fields =>
    cases w with
    | object others =>
      have hfields : sameFields fields others = true := (Bool.and_eq_true_iff.mp h).2
      have hmem := mem_of_get hget
      clear h hget
      induction fields with
      | nil => cases hmem
      | cons field fields ih =>
        obtain ⟨hhead, htail⟩ := Bool.and_eq_true_iff.mp hfields
        rcases List.mem_cons.mp hmem with rfl | hmem
        · exact (Option.any_eq_true _ _).mp hhead
        · exact ih htail hmem
    | _ => cases h
  | _ => cases hget

end Value

end Llmctl
