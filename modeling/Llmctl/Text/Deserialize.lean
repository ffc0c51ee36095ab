import Llmctl.Text.Paths

/-!
# Deserializing JSON

What `serde_json` makes of a value that is read as a type: strings, flags, numbers,
sequences, and structs whose fields are given by name or in their order. The first error in
the order of the text is reported.
-/

namespace Llmctl

inductive ErrorKind where
  | invalidType (found : Value) (expected : String)
  | invalidValue (found : Value) (expected : String)
  | invalidLength (length : Nat) (expected : String)
  | missingField (field : String)
  | duplicateField (field : String)
  | trailingCharacters
  | numberOutOfRange

/-- The path leads to the item or the field at which the error arose. -/
structure DeError where
  kind : ErrorKind
  path : List Nat := []

abbrev De (α : Type) := Except DeError α

namespace De

variable {α : Type}

def fail (kind : ErrorKind) : De α := .error { kind }

def within (i : Nat) : De α → De α
  | .ok a => .ok a
  | .error e => .error { e with path := i :: e.path }

/-! ## Values -/

def readString : Value → De String
  | .string s => .ok s
  | v => fail (.invalidType v "a string")

def readBool : Value → De Bool
  | .bool b => .ok b
  | v => fail (.invalidType v "a boolean")

def readOption (read : Value → De α) : Value → De (Option α)
  | .null => .ok none
  | v => read v >>= fun a => .ok (some a)

def isSigned (text : String) : Bool := text.startsWith "-" && (text.toList.drop 1).all Char.isDigit

section
variable (numbers : Numbers) (order : FieldOrder)

def readValue (v : Value) : De Value :=
  match v.keep numbers order with
  | some v => .ok v
  | none => fail .numberOutOfRange

/-- `u32` and `u64` -/
def readUnsigned (bound : Nat) (expected : String) : Value → De Nat
  | .number text =>
    match numbers.read text with
    | none => fail .numberOutOfRange
    | some printed =>
      match Value.asU64 (.number printed) with
      | some n => if n < bound then .ok n else fail (.invalidValue (.number printed) expected)
      | none =>
        if isSigned printed then fail (.invalidValue (.number printed) expected)
        else fail (.invalidType (.number printed) expected)
  | v => fail (.invalidType v expected)

/-- `f32`, as it prints -/
def readFloat : Value → De String
  | .number text =>
    match numbers.read text with
    | none => fail .numberOutOfRange
    | some printed => .ok printed
  | v => fail (.invalidType v "f32")

end

def readItems (read : Value → De α) : Nat → List Value → De (List α)
  | _, [] => .ok []
  | i, v :: vs => do
    let a ← within i (read v)
    let as ← readItems read (i + 1) vs
    .ok (a :: as)

def readVec (read : Value → De α) : Value → De (List α)
  | .array items => readItems read 0 items
  | v => fail (.invalidType v "a sequence")

/-! ## Structs -/

/-- A field of a struct, and whether its value is read. -/
structure Field where
  name : String
  required : Bool
  check : Value → De Unit

def Field.of (name : String) (required : Bool) (read : Value → De α) : Field where
  name := name
  required := required
  check v := read v >>= fun _ => .ok ()

/-- The fields of an object; those that the struct does not have are passed over. -/
def visitMap (fields : List Field) : Nat → List String → List (String × Value) → De Unit
  | _, _, [] => .ok ()
  | i, seen, (key, v) :: rest =>
    match fields.find? fun field => field.name == key with
    | none => visitMap fields (i + 1) seen rest
    | some field =>
      if key ∈ seen then within i (fail (.duplicateField key))
      else do
        within i (field.check v)
        visitMap fields (i + 1) (key :: seen) rest

/-- The items of an array, a field each. -/
def visitSeq (expected : String) : Nat → List Field → List Value → De Unit
  | _, [], [] => .ok ()
  | i, [], _ :: _ => within i (fail .trailingCharacters)
  | i, field :: fields, [] =>
    if field.required then fail (.invalidLength i expected) else visitSeq expected (i + 1) fields []
  | i, field :: fields, v :: vs => do
    within i (field.check v)
    visitSeq expected (i + 1) fields vs

/-- The values of a struct's fields by name. -/
def structFields (name : String) (fields : List Field) : Value → De (List (String × Value))
  | .object entries => do
    visitMap fields 0 [] entries
    .ok entries
  | .array items => do
    visitSeq s!"struct {name} with {fields.length} elements" 0 fields items
    .ok ((fields.map Field.name).zip items)
  | v => fail (.invalidType v s!"struct {name}")

def required (key : String) (read : Value → De α) (entries : List (String × Value)) : De α :=
  match Value.lastField key entries with
  | some v => read v
  | none => fail (.missingField key)

def optional (key : String) (default : α) (read : Value → De α) (entries : List (String × Value)) : De α :=
  match Value.lastField key entries with
  | some v => read v
  | none => .ok default

/-! ## Rules -/

theorem within_ok {i : Nat} {d : De α} {a : α} : within i d = .ok a ↔ d = .ok a := by
  cases d <;> simp [within]

theorem bind_ok {β : Type} {d : De α} {f : α → De β} {b : β} : (d >>= f) = .ok b ↔ ∃ a, d = .ok a ∧ f a = .ok b := by
  cases d with
  | error e => simp [bind, Except.bind]
  | ok a => simp [bind, Except.bind]

theorem check_of {name : String} {required : Bool} {read : Value → De α} {v : Value} :
    (Field.of name required read).check v = .ok () ↔ ∃ a, read v = .ok a := by
  simp [Field.of, bind_ok]

theorem readItems_ok {read : Value → De α} {i : Nat} {vs : List Value} {as : List α} :
    readItems read i vs = .ok as ↔ List.Forall₂ (fun v a => read v = .ok a) vs as := by
  induction vs generalizing i as with
  | nil =>
    rw [readItems, List.forall₂_nil_left_iff]
    exact ⟨fun h => (Except.ok.inj h).symm, fun h => by rw [h]⟩
  | cons v vs ih =>
    simp only [readItems, bind_ok, within_ok]
    constructor
    · rintro ⟨a, ha, rest, hrest, h⟩
      cases h
      exact .cons ha (ih.mp hrest)
    · rintro (_ | ⟨ha, hrest⟩)
      exact ⟨_, ha, _, ih.mpr hrest, rfl⟩

theorem readVec_ok {read : Value → De α} {v : Value} {as : List α} :
    readVec read v = .ok as ↔ ∃ items, v = .array items ∧ List.Forall₂ (fun v a => read v = .ok a) items as := by
  unfold readVec
  split
  · rename_i items
    simp [readItems_ok]
  · rename_i hne
    constructor
    · nofun
    · rintro ⟨items, rfl, -⟩
      exact absurd rfl (hne items)

def known (fields : List Field) (key : String) : Bool := (fields.find? fun field => field.name == key).isSome

/-- An object is read as a struct where no field of the struct stands twice and each is read. -/
theorem visitMap_ok {fields : List Field} {i : Nat} {seen : List String} {entries : List (String × Value)} :
    visitMap fields i seen entries = .ok () ↔
      ((entries.map (·.1)).filter (known fields)).Nodup ∧ (∀ entry ∈ entries, known fields entry.1 = true → entry.1 ∉ seen) ∧
        ∀ entry ∈ entries, ∀ field, (fields.find? fun field => field.name == entry.1) = some field → field.check entry.2 = .ok () := by
  induction entries generalizing i seen with
  | nil => simp [visitMap]
  | cons entry entries ih =>
    obtain ⟨key, v⟩ := entry
    rw [visitMap]
    cases hfind : fields.find? fun field => field.name == key with
    | none =>
      have hknown : known fields key = false := by simp [known, hfind]
      simp [ih, hknown, hfind]
    | some field =>
      have hknown : known fields key = true := by simp [known, hfind]
      dsimp only
      by_cases hseen : key ∈ seen
      · rw [if_pos hseen]
        simp [within, fail, hknown, hseen]
      · rw [if_neg hseen, bind_ok, List.map_cons, List.filter_cons_of_pos hknown, List.nodup_cons]
        simp only [List.forall_mem_cons, within_ok, ih, hfind, Option.some.injEq, forall_eq']
        simp only [List.mem_cons, not_or]
        constructor
        · rintro ⟨_, hv, hnodup, hfresh, hchecks⟩
          refine ⟨⟨fun hmem => ?_, hnodup⟩, ⟨fun _ => hseen, fun entry hentry hk => (hfresh entry hentry hk).2⟩, hv, hchecks⟩
          obtain ⟨hmem, hk⟩ := List.mem_filter.mp hmem
          obtain ⟨entry, hentry, hkey⟩ := List.mem_map.mp hmem
          exact (hfresh entry hentry (hkey ▸ hk)).1 hkey
        · rintro ⟨⟨hnew, hnodup⟩, ⟨-, hfresh⟩, hv, hchecks⟩
          refine ⟨(), hv, hnodup, fun entry hentry hk => ⟨fun hkey => ?_, hfresh entry hentry hk⟩, hchecks⟩
          exact hnew (List.mem_filter.mpr ⟨List.mem_map.mpr ⟨entry, hentry, hkey⟩, hknown⟩)

theorem find?_field {fields : List Field} (hnames : (fields.map Field.name).Nodup) {field : Field} (h : field ∈ fields) :
    (fields.find? fun f => f.name == field.name) = some field := by
  induction fields with
  | nil => cases h
  | cons first fields ih =>
    rw [List.map_cons, List.nodup_cons] at hnames
    rcases List.mem_cons.mp h with rfl | hmem
    · exact List.find?_cons_of_pos (by simp)
    · have hne : first.name ≠ field.name := fun heq => hnames.1 (heq ▸ List.mem_map.mpr ⟨_, hmem, rfl⟩)
      rw [List.find?_cons_of_neg (by simpa using hne)]
      exact ih hnames.2 hmem

theorem field_eq_of_name {fields : List Field} (hnames : (fields.map Field.name).Nodup) {field other : Field}
    (hfield : field ∈ fields) (hother : other ∈ fields) (h : field.name = other.name) : field = other := by
  have hfind := find?_field hnames hfield
  rw [h, find?_field hnames hother] at hfind
  exact (Option.some.inj hfind).symm

/-- Each field that stands in an object that is read as a struct is read. -/
theorem check_of_visitMap {fields : List Field} (hnames : (fields.map Field.name).Nodup) {entries : List (String × Value)}
    (h : visitMap fields 0 [] entries = .ok ()) {field : Field} (hfield : field ∈ fields) {v : Value}
    (hv : Value.lastField field.name entries = some v) : field.check v = .ok () := by
  obtain ⟨-, -, hchecks⟩ := visitMap_ok.mp h
  exact hchecks _ (Value.mem_of_lastField hv) field (find?_field hnames hfield)

/-- A map whose values are read is read as a struct. -/
theorem visitMap_of_checks {fields : List Field} {entries : List (String × Value)} (hnodup : (entries.map (·.1)).Nodup)
    (h : ∀ field ∈ fields, ∀ v, Value.lastField field.name entries = some v → field.check v = .ok ()) :
    visitMap fields 0 [] entries = .ok () := by
  refine visitMap_ok.mpr ⟨hnodup.filter _, fun _ _ _ => List.not_mem_nil, fun entry hentry field hfind => ?_⟩
  have hname : field.name = entry.1 := by simpa using List.find?_some hfind
  exact h field (List.mem_of_find?_eq_some hfind) entry.2 (Value.lastField_of_mem hnodup (hname ▸ hentry))

/-! ## Reading again what was kept -/

section
variable (numbers : Numbers) (order : FieldOrder)

/-- What is read of the value that is kept is `f` of what is read of the value. -/
def Rereads (read : Value → De α) (f : α → α) : Prop :=
  ∀ v w a, v.keep numbers order = some w → read v = .ok a → read w = .ok (f a)

def Field.Rereads (field : Field) : Prop :=
  ∀ v w, v.keep numbers order = some w → field.check v = .ok () → field.check w = .ok ()

variable {numbers order}

theorem Rereads.field {read : Value → De α} {f : α → α} (h : Rereads numbers order read f) (name : String) (required : Bool) :
    (Field.of name required read).Rereads numbers order := by
  intro v w hkeep hcheck
  obtain ⟨a, ha⟩ := check_of.mp hcheck
  exact check_of.mpr ⟨f a, h v w a hkeep ha⟩

theorem keep_null {v : Value} : v.keep numbers order = some .null ↔ v = .null := by
  cases v <;> simp [Value.keep]

theorem readOption_ne {read : Value → De α} {v : Value} (h : v ≠ .null) :
    readOption read v = read v >>= fun a => .ok (some a) := by
  cases v with
  | null => exact absurd rfl h
  | _ => rfl

theorem Rereads.option {read : Value → De α} {f : α → α} (h : Rereads numbers order read f) :
    Rereads numbers order (readOption read) (Option.map f) := by
  intro v w a hkeep hread
  by_cases hnull : v = .null
  · subst hnull
    cases hkeep
    cases hread
    rfl
  · have hw : w ≠ .null := by
      rintro rfl
      exact hnull (keep_null.mp hkeep)
    rw [readOption_ne hnull] at hread
    obtain ⟨b, hb, hread⟩ := bind_ok.mp hread
    cases hread
    rw [readOption_ne hw]
    exact bind_ok.mpr ⟨f b, h v w b hkeep hb, rfl⟩

theorem rereads_string : Rereads numbers order readString id := by
  intro v w a hkeep hread
  cases v with
  | string s =>
    cases hkeep
    exact hread
  | _ => cases hread

theorem rereads_bool : Rereads numbers order readBool id := by
  intro v w a hkeep hread
  cases v with
  | bool b =>
    cases hkeep
    exact hread
  | _ => cases hread

/-- A number that was printed, as it prints again. -/
def printedAgain (numbers : Numbers) (printed : String) : String := (numbers.read printed).getD printed

section
variable (hrange : Value.PrintsInRange numbers)
include hrange

theorem rereads_float : Rereads numbers order (readFloat numbers) (printedAgain numbers) := by
  intro v w a hkeep hread
  cases v with
  | number text =>
    obtain ⟨printed, hprinted, rfl⟩ := Option.map_eq_some_iff.mp hkeep
    obtain ⟨again, hagain⟩ := Option.isSome_iff_exists.mp (hrange text printed hprinted)
    simp only [readFloat, hprinted] at hread
    cases hread
    simp [readFloat, printedAgain, hagain]
  | _ => cases hread

end

theorem read_of_asU64 {printed : String} {n : Nat} (h : Value.asU64 (.number printed) = some n)
    (hnumber : Value.isNumber printed = true) : numbers.read printed = some printed := by
  obtain ⟨hlt, rfl⟩ := Value.repr_of_asU64 hnumber h
  exact numbers.nat n hlt

theorem rereads_unsigned (bound : Nat) (expected : String) :
    Rereads numbers order (readUnsigned numbers bound expected) id := by
  intro v w a hkeep hread
  cases v with
  | number text =>
    obtain ⟨printed, hprinted, rfl⟩ := Option.map_eq_some_iff.mp hkeep
    simp only [readUnsigned, hprinted] at hread ⊢
    cases hn : Value.asU64 (.number printed) with
    | none =>
      rw [hn] at hread
      dsimp only at hread
      split at hread <;> cases hread
    | some n =>
      rw [hn] at hread
      rw [read_of_asU64 hn (numbers.printed hprinted)]
      dsimp only
      rw [hn]
      exact hread
  | _ => cases hread

theorem Rereads.items {read : Value → De α} {f : α → α} (h : Rereads numbers order read f) {vs ws : List Value} {as : List α}
    (hkeep : List.Forall₂ (fun v w => v.keep numbers order = some w) vs ws) (hread : List.Forall₂ (fun v a => read v = .ok a) vs as) :
    List.Forall₂ (fun v a => read v = .ok a) ws (as.map f) := by
  induction hkeep generalizing as with
  | nil =>
    cases hread
    exact .nil
  | cons hv _ ih =>
    cases hread with
    | cons ha hread => exact .cons (h _ _ _ hv ha) (ih hread)

theorem Rereads.vec {read : Value → De α} {f : α → α} (h : Rereads numbers order read f) :
    Rereads numbers order (readVec read) (List.map f) := by
  intro v w as hkeep hread
  obtain ⟨items, rfl, hitems⟩ := readVec_ok.mp hread
  obtain ⟨ws, hws, rfl⟩ := Option.map_eq_some_iff.mp hkeep
  exact readVec_ok.mpr ⟨ws, rfl, h.items (Value.keepItems_rel hws) hitems⟩

theorem zip_keep (names : List String) {vs ws : List Value}
    (h : List.Forall₂ (fun v w => v.keep numbers order = some w) vs ws) :
    List.Forall₂ (fun field other => field.1 = other.1 ∧ Value.keep numbers order field.2 = some other.2)
      (names.zip vs) (names.zip ws) := by
  induction h generalizing names with
  | nil => simp
  | cons hv _ ih =>
    cases names with
    | nil => exact .nil
    | cons name names => exact .cons ⟨rfl, hv⟩ (ih names)

theorem visitSeq_keep {expected : String} {fields : List Field} (hfields : ∀ field ∈ fields, field.Rereads numbers order)
    {i : Nat} {vs ws : List Value} (hkeep : List.Forall₂ (fun v w => v.keep numbers order = some w) vs ws)
    (h : visitSeq expected i fields vs = .ok ()) : visitSeq expected i fields ws = .ok () := by
  induction fields generalizing i vs ws with
  | nil =>
    cases hkeep with
    | nil => exact h
    | cons => cases h
  | cons field fields ih =>
    obtain ⟨hfield, hfields⟩ := List.forall_mem_cons.mp hfields
    cases hkeep with
    | nil => exact h
    | cons hv hvs =>
      rw [visitSeq, bind_ok] at h ⊢
      obtain ⟨u, hcheck, hrest⟩ := h
      exact ⟨u, within_ok.mpr (hfield _ _ hv (within_ok.mp hcheck)), ih hfields hvs hrest⟩

/-- What is kept of a struct's value is a struct's value again, of the values that are kept. -/
theorem structFields_keep {name : String} {fields : List Field} (hnames : (fields.map Field.name).Nodup)
    (hfields : ∀ field ∈ fields, field.Rereads numbers order) {v w : Value} (hkeep : v.keep numbers order = some w)
    {entries : List (String × Value)} (h : structFields name fields v = .ok entries) :
    ∃ others, structFields name fields w = .ok others ∧ ∀ key,
      Option.Rel (fun x y => Value.keep numbers order x = some y) (Value.lastField key entries) (Value.lastField key others) := by
  cases v with
  | object fields' =>
    obtain ⟨_, hvisit, h⟩ := bind_ok.mp h
    obtain rfl := Except.ok.inj h
    obtain ⟨kept, hkept, rfl⟩ := Option.map_eq_some_iff.mp hkeep
    have hrel : ∀ key, Option.Rel (fun x y => Value.keep numbers order x = some y) (Value.lastField key fields')
        (Value.lastField key (Value.collectFields order kept)) := by
      intro key
      rw [Value.lastField_collectFields]
      exact Value.lastField_rel (Value.keepFields_rel hkept) key
    refine ⟨_, bind_ok.mpr ⟨(), visitMap_of_checks (Value.nodup_collectFields order kept) ?_, rfl⟩, hrel⟩
    intro field hfield y hy
    have hfound := hrel field.name
    rw [hy] at hfound
    generalize hx : Value.lastField field.name fields' = found at hfound
    cases hfound with
    | some hxy => exact hfields field hfield _ _ hxy (check_of_visitMap hnames hvisit hfield hx)
  | array items =>
    obtain ⟨_, hvisit, h⟩ := bind_ok.mp h
    cases h
    obtain ⟨ws, hws, rfl⟩ := Option.map_eq_some_iff.mp hkeep
    have hws := Value.keepItems_rel hws
    exact ⟨_, bind_ok.mpr ⟨(), visitSeq_keep hfields hws hvisit, rfl⟩, fun key => Value.lastField_rel (zip_keep _ hws) key⟩
  | _ => cases h

/-- A field of an object is set to a value that the struct reads. -/
theorem structFields_setField {name : String} {fields : List Field} (hnames : (fields.map Field.name).Nodup)
    {entries : List (String × Value)} (h : structFields name fields (.object entries) = .ok entries) {key : String} {w : Value}
    (hw : ∀ field ∈ fields, field.name = key → field.check w = .ok ()) :
    structFields name fields ((Value.object entries).setField order key w) =
      .ok (Value.collectFields order (entries ++ [(key, w)])) := by
  obtain ⟨_, hvisit, -⟩ := bind_ok.mp h
  refine bind_ok.mpr ⟨(), visitMap_of_checks (Value.nodup_collectFields order _) ?_, rfl⟩
  intro field hfield v hv
  rw [Value.lastField_set] at hv
  by_cases hname : key = field.name
  · rw [if_pos hname] at hv
    cases hv
    exact hw field hfield hname.symm
  · rw [if_neg hname] at hv
    exact check_of_visitMap hnames hvisit hfield hv

theorem required_set {key other : String} (hkey : other ≠ key) (read : Value → De α) (entries : List (String × Value)) (w : Value) :
    De.required key read (Value.collectFields order (entries ++ [(other, w)])) = De.required key read entries := by
  unfold De.required
  rw [Value.lastField_set, if_neg hkey]

theorem optional_set {key other : String} (hkey : other ≠ key) (default : α) (read : Value → De α)
    (entries : List (String × Value)) (w : Value) :
    De.optional key default read (Value.collectFields order (entries ++ [(other, w)])) = De.optional key default read entries := by
  unfold De.optional
  rw [Value.lastField_set, if_neg hkey]

theorem required_set_self (key : String) (read : Value → De α) (entries : List (String × Value)) (w : Value) :
    De.required key read (Value.collectFields order (entries ++ [(key, w)])) = read w := by
  unfold De.required
  rw [Value.lastField_set, if_pos rfl]

theorem optional_set_self (key : String) (default : α) (read : Value → De α) (entries : List (String × Value)) (w : Value) :
    De.optional key default read (Value.collectFields order (entries ++ [(key, w)])) = read w := by
  unfold De.optional
  rw [Value.lastField_set, if_pos rfl]

theorem Rereads.required {read : Value → De α} {f : α → α} (h : Rereads numbers order read f) {key : String}
    {entries others : List (String × Value)}
    (hrel : Option.Rel (fun x y => Value.keep numbers order x = some y) (Value.lastField key entries) (Value.lastField key others))
    {a : α} (hread : De.required key read entries = .ok a) : De.required key read others = .ok (f a) := by
  unfold De.required at hread ⊢
  generalize Value.lastField key entries = x at hrel hread
  generalize Value.lastField key others = y at hrel
  cases hrel with
  | none => cases hread
  | some hxy => exact h _ _ _ hxy hread

theorem Rereads.optional {read : Value → De α} {f : α → α} (h : Rereads numbers order read f) {key : String} {default : α}
    (hdefault : f default = default) {entries others : List (String × Value)}
    (hrel : Option.Rel (fun x y => Value.keep numbers order x = some y) (Value.lastField key entries) (Value.lastField key others))
    {a : α} (hread : De.optional key default read entries = .ok a) : De.optional key default read others = .ok (f a) := by
  unfold De.optional at hread ⊢
  generalize Value.lastField key entries = x at hrel hread
  generalize Value.lastField key others = y at hrel
  cases hrel with
  | none =>
    cases hread
    rw [hdefault]
  | some hxy => exact h _ _ _ hxy hread

end

end De

end Llmctl
