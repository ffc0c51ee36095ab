import Llmctl.Text.Deserialize

/-!
# Values read with their strings hidden

A reader that passes over some strings reads the same with others in their place, or fails at
the same place in the same way. An error says the string that it found, and of an array and
an object only that it is one.
-/

namespace Llmctl

namespace Value

mutual

/-- A value without its strings, its keys among them. -/
def veil : Value → Value
  | string _ => string ""
  | array items => array (veilItems items)
  | object fields => object (veilFields fields)
  | v => v

def veilItems : List Value → List Value
  | [] => []
  | v :: vs => v.veil :: veilItems vs

def veilFields : List (String × Value) → List (String × Value)
  | [] => []
  | (_, v) :: fields => ("", v.veil) :: veilFields fields

end

/-- What an error says of a value, but for its string. -/
def outline : Value → Value
  | string _ => string ""
  | array _ => array []
  | object _ => object []
  | v => v

/-- `as_array().map(len)` -/
def itemCount : Value → Option Nat
  | array items => some items.length
  | _ => none

theorem outline_veil (v : Value) : v.veil.outline = v.outline := by
  cases v <;> rfl

theorem veil_null {v : Value} : v.veil = null ↔ v = null := by
  cases v <;> simp [veil]

/-! ## Hidden fields -/

section
variable (hide : String → Value → Value)

def hideField (field : String × Value) : String × Value := (field.1, hide field.1 field.2)

/-- The items of an array that is read as a struct; those beyond its fields have no name. -/
def hideSeq : List String → List Value → List Value
  | _, [] => []
  | [], v :: vs => hide "" v :: hideSeq [] vs
  | name :: names, v :: vs => hide name v :: hideSeq names vs

def hideStruct (names : List String) : Value → Value
  | object fields => object (fields.map (hideField hide))
  | array items => array (hideSeq hide names items)
  | v => hide "" v

end

def hideItems (hide : Value → Value) : Value → Value
  | array items => array (items.map hide)
  | v => v.veil

section
variable {hide : String → Value → Value}

theorem lastField_hide (key : String) (fields : List (String × Value)) :
    lastField key (fields.map (hideField hide)) = (lastField key fields).map (hide key) := by
  induction fields with
  | nil => rfl
  | cons field fields ih =>
    rw [List.map_cons, lastField, lastField, ih, hideField]
    cases lastField key fields with
    | some v => rfl
    | none =>
      by_cases hkey : field.1 = key
      · simp [hkey]
      · simp [hkey]

theorem zip_hideSeq (names : List String) (items : List Value) :
    names.zip (hideSeq hide names items) = (names.zip items).map (hideField hide) := by
  induction names generalizing items with
  | nil => rfl
  | cons name names ih =>
    cases items with
    | nil => rfl
    | cons v items => rw [hideSeq, List.zip_cons_cons, List.zip_cons_cons, List.map_cons, ih, hideField]

end

/-! ## What is kept -/

section
variable {numbers : Numbers} {order : FieldOrder}

mutual

theorem keep_veil : ∀ v : Value, (keep numbers order v.veil).map itemCount = (keep numbers order v).map itemCount
  | null | bool _ | number _ | string _ => rfl
  | array items => by
    have hcount : itemCount ∘ array = some ∘ List.length := rfl
    rw [veil, keep, keep, Option.map_map, Option.map_map, hcount, ← Option.map_map, keepItems_veil items, Option.map_map]
  | object fields => by
    have hsome := keepFields_veil fields
    rw [veil, keep, keep]
    cases hveiled : keepFields numbers order (veilFields fields) with
    | none =>
      rw [hveiled] at hsome
      rw [Option.isSome_eq_false_iff.mp hsome.symm |> Option.isNone_iff_eq_none.mp]
    | some others =>
      rw [hveiled] at hsome
      obtain ⟨kept, hkept⟩ := Option.isSome_iff_exists.mp hsome.symm
      rw [hkept]
      rfl

theorem keepItems_veil : ∀ items : List Value, (keepItems numbers order (veilItems items)).map List.length =
    (keepItems numbers order items).map List.length
  | [] => rfl
  | v :: vs => by
    have hv := keep_veil v
    have hvs := keepItems_veil vs
    rw [veilItems, keepItems, keepItems]
    generalize keep numbers order v.veil = x at hv ⊢
    generalize keep numbers order v = y at hv ⊢
    generalize keepItems numbers order (veilItems vs) = xs at hvs ⊢
    generalize keepItems numbers order vs = ys at hvs ⊢
    cases x <;> cases y <;> cases xs <;> cases ys <;> simp_all

theorem keepFields_veil : ∀ fields : List (String × Value), (keepFields numbers order (veilFields fields)).isSome =
    (keepFields numbers order fields).isSome
  | [] => rfl
  | (_, v) :: fields => by
    have hv := keep_veil v
    have hfields := keepFields_veil fields
    rw [veilFields, keepFields, keepFields]
    generalize keep numbers order v.veil = x at hv ⊢
    generalize keep numbers order v = y at hv ⊢
    generalize keepFields numbers order (veilFields fields) = xs at hfields ⊢
    generalize keepFields numbers order fields = ys at hfields ⊢
    cases x <;> cases y <;> cases xs <;> cases ys <;> simp_all

end

end

end Value

/-! ## Errors -/

def ErrorKind.outline : ErrorKind → ErrorKind
  | .invalidType found expected => .invalidType found.outline expected
  | .invalidValue found expected => .invalidValue found.outline expected
  | kind => kind

/-- The unexpected string. -/
def ErrorKind.quoted : ErrorKind → Option String
  | .invalidType (.string s) _ => some s
  | _ => none

def DeError.outline (e : DeError) : DeError := { e with kind := e.kind.outline }

namespace De

variable {α β γ δ : Type}

/-- Both give results that are related, or both fail at one place in one way. -/
inductive Alike (R : α → β → Prop) : De α → De β → Prop where
  | ok {a : α} {b : β} (h : R a b) : Alike R (.ok a) (.ok b)
  | error {e e' : DeError} (h : e.outline = e'.outline) : Alike R (.error e) (.error e')

namespace Alike

variable {R : α → β → Prop} {S : γ → δ → Prop} {d : De α} {d' : De β}

theorem refl {R : α → α → Prop} (h : ∀ a, R a a) (d : De α) : Alike R d d := by
  cases d with
  | ok a => exact .ok (h a)
  | error e => exact .error rfl

theorem fail {kind kind' : ErrorKind} (h : kind.outline = kind'.outline) : Alike R (De.fail kind) (De.fail kind') :=
  .error (by rw [DeError.outline, DeError.outline, h])

theorem mono {Q : α → β → Prop} (hd : Alike R d d') (h : ∀ a b, R a b → Q a b) : Alike Q d d' := by
  cases hd with
  | ok hab => exact .ok (h _ _ hab)
  | error he => exact .error he

theorem within (hd : Alike R d d') (i : Nat) : Alike R (De.within i d) (De.within i d') := by
  cases hd with
  | ok hab => exact .ok hab
  | error he =>
    rw [DeError.outline, DeError.outline, DeError.mk.injEq] at he
    exact .error (by rw [DeError.outline, DeError.outline, he.1, he.2])

theorem bind {f : α → De γ} {f' : β → De δ} (hd : Alike R d d') (hf : ∀ a b, R a b → Alike S (f a) (f' b)) :
    Alike S (d >>= f) (d' >>= f') := by
  cases hd with
  | ok hab => exact hf _ _ hab
  | error he => exact .error he

/-- Both are alike to one. -/
theorem common {d : De α} {d' : De γ} {c : De β} {Q : γ → β → Prop} (hd : Alike R d c) (hd' : Alike Q d' c) :
    Alike (fun a a' => ∃ b, R a b ∧ Q a' b) d d' := by
  cases hd with
  | ok h =>
    cases hd' with
    | ok h' => exact .ok ⟨_, h, h'⟩
  | error h =>
    cases hd' with
    | error h' => exact .error (h.trans h'.symm)

end Alike

/-- A reader that passes over what is hidden; its results are related by `R`. -/
def Blind (hide : Value → Value) (read : Value → De α) (R : α → α → Prop) : Prop :=
  ∀ v, Alike R (read v) (read (hide v))

section
variable {hide : Value → Value} {read : Value → De α} {R : α → α → Prop}

theorem blind_id (h : ∀ a, R a a) (read : Value → De α) : Blind id read R := fun v => .refl h (read v)

theorem Blind.field (h : Blind hide read R) (name : String) (required : Bool) :
    Blind hide (Field.of name required read).check fun _ _ => True :=
  fun v => (h v).bind fun _ _ _ => .ok trivial

theorem Blind.option (h : Blind Value.veil read R) : Blind Value.veil (readOption read) (Option.Rel R) := by
  intro v
  by_cases hnull : v = .null
  · subst hnull
    exact .ok .none
  · rw [readOption_ne hnull, readOption_ne (Value.veil_null.not.mpr hnull)]
    exact (h v).bind fun _ _ hab => .ok (.some hab)

theorem blind_string : Blind Value.veil readString fun _ _ => True := by
  intro v
  cases v with
  | string s => exact .ok trivial
  | _ => exact .fail rfl

theorem blind_value (numbers : Numbers) (order : FieldOrder) :
    Blind Value.veil (readValue numbers order) fun v w => v.itemCount = w.itemCount := by
  intro v
  have hkeep : (v.veil.keep numbers order).map Value.itemCount = (v.keep numbers order).map Value.itemCount := Value.keep_veil v
  unfold readValue
  cases hv : v.keep numbers order with
  | none =>
    rw [hv] at hkeep
    rw [Option.map_eq_none_iff.mp hkeep]
    exact .fail rfl
  | some w =>
    rw [hv] at hkeep
    obtain ⟨w', hw', hcount⟩ := Option.map_eq_some_iff.mp hkeep
    rw [hw']
    exact .ok hcount.symm

theorem Blind.items (h : Blind hide read R) (i : Nat) (vs : List Value) :
    Alike (List.Forall₂ R) (readItems read i vs) (readItems read i (vs.map hide)) := by
  induction vs generalizing i with
  | nil => exact .ok .nil
  | cons v vs ih =>
    exact ((h v).within i).bind fun _ _ hab => (ih (i + 1)).bind fun _ _ hrest => .ok (.cons hab hrest)

theorem Blind.vec (h : Blind hide read R) : Blind (Value.hideItems hide) (readVec read) (List.Forall₂ R) := by
  intro v
  cases v with
  | array items => exact h.items 0 items
  | _ => exact .fail rfl

end

/-! ## Structs -/

section
variable {hide : String → Value → Value} {fields : List Field}
  (hfields : ∀ field ∈ fields, Blind (hide field.name) field.check fun _ _ => True)
include hfields

theorem visitMap_hide (i : Nat) (seen : List String) (entries : List (String × Value)) :
    Alike (fun _ _ => True) (visitMap fields i seen entries) (visitMap fields i seen (entries.map (Value.hideField hide))) := by
  induction entries generalizing i seen with
  | nil => exact .ok trivial
  | cons entry entries ih =>
    obtain ⟨key, v⟩ := entry
    rw [List.map_cons, Value.hideField, visitMap, visitMap]
    cases hfind : fields.find? fun field => field.name == key with
    | none => exact ih (i + 1) seen
    | some field =>
      have hname : field.name = key := by simpa using List.find?_some hfind
      have hcheck := hfields field (List.mem_of_find?_eq_some hfind) v
      rw [hname] at hcheck
      by_cases hseen : key ∈ seen
      · simp only [hseen, if_true]
        exact .refl (fun _ => trivial) _
      · simp only [hseen, if_false]
        exact (hcheck.within i).bind fun _ _ _ => ih (i + 1) (key :: seen)

theorem visitSeq_hide (expected : String) (i : Nat) (items : List Value) :
    Alike (fun _ _ => True) (visitSeq expected i fields items)
      (visitSeq expected i fields (Value.hideSeq hide (fields.map Field.name) items)) := by
  induction fields generalizing i items with
  | nil =>
    cases items with
    | nil => exact .ok trivial
    | cons v items => exact .refl (fun _ => trivial) _
  | cons field fields ih =>
    rw [List.forall_mem_cons] at hfields
    cases items with
    | nil => exact .refl (fun _ => trivial) _
    | cons v items =>
      rw [List.map_cons, Value.hideSeq, visitSeq, visitSeq]
      exact ((hfields.1 v).within i).bind fun _ _ _ => ih hfields.2 (i + 1) items

omit hfields in
theorem structFields_fails {name : String} {v : Value} (hobject : v.outline ≠ .object []) (harray : v.outline ≠ .array []) :
    structFields name fields v = fail (.invalidType v s!"struct {name}") := by
  cases v with
  | object entries => exact absurd rfl hobject
  | array items => exact absurd rfl harray
  | _ => rfl

/-- A struct is read of the hidden fields. -/
theorem structFields_hide (houtline : ∀ v, (hide "" v).outline = v.outline) (name : String) (v : Value) :
    Alike (fun entries others => others = entries.map (Value.hideField hide)) (structFields name fields v)
      (structFields name fields (v.hideStruct hide (fields.map Field.name))) := by
  have hscalar (hobject : v.outline ≠ .object []) (harray : v.outline ≠ .array [])
      (hstruct : v.hideStruct hide (fields.map Field.name) = hide "" v) :
      Alike (fun entries others => others = entries.map (Value.hideField hide)) (structFields name fields v)
        (structFields name fields (v.hideStruct hide (fields.map Field.name))) := by
    have houtline := houtline v
    rw [hstruct, structFields_fails hobject harray,
      structFields_fails (by rwa [houtline]) (by rwa [houtline])]
    exact .fail (by rw [ErrorKind.outline, ErrorKind.outline, houtline])
  cases v with
  | object entries => exact (visitMap_hide hfields 0 [] entries).bind fun _ _ _ => .ok rfl
  | array items =>
    exact (visitSeq_hide hfields _ 0 items).bind fun _ _ _ => .ok (Value.zip_hideSeq _ items)
  | _ => exact hscalar (by simp [Value.outline]) (by simp [Value.outline]) rfl

end

section
variable {hide : String → Value → Value} {key : String} {read : Value → De α} {R : α → α → Prop}

theorem Blind.required (h : Blind (hide key) read R) (entries : List (String × Value)) :
    Alike R (required key read entries) (required key read (entries.map (Value.hideField hide))) := by
  unfold De.required
  rw [Value.lastField_hide]
  cases Value.lastField key entries with
  | none => exact .fail rfl
  | some v => exact h v

theorem Blind.optional (h : Blind (hide key) read R) {default : α} (hdefault : R default default) (entries : List (String × Value)) :
    Alike R (optional key default read entries) (optional key default read (entries.map (Value.hideField hide))) := by
  unfold De.optional
  rw [Value.lastField_hide]
  cases Value.lastField key entries with
  | none => exact .ok hdefault
  | some v => exact h v

end

end De

end Llmctl
