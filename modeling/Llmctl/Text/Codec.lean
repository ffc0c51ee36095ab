import Llmctl.Text.Deserialize
import Llmctl.Text.Pretty

/-!
# Types that are written and read

What `serde_json` writes of a value of a type, and how it is read as this type again.
-/

namespace Llmctl

structure Codec (α : Type) where
  write : α → Value
  read : Value → De α
  read_write : ∀ a, read (write a) = .ok a
  integral : ∀ a, (write a).Integral

namespace Codec

open De

variable {α : Type}

def string : Codec String where
  write := .string
  read := readString
  read_write _ := rfl
  integral _ := trivial

def bool : Codec Bool where
  write := .bool
  read := readBool
  read_write _ := rfl
  integral _ := trivial

theorem readUnsigned_repr (numbers : Numbers) {bound n : Nat} (expected : String) (hn : n < bound) (hbound : bound ≤ 2 ^ 64) :
    readUnsigned numbers bound expected (.number n.repr) = .ok n := by
  have hlt : n < 2 ^ 64 := Nat.lt_of_lt_of_le hn hbound
  rw [readUnsigned, numbers.nat n hlt]
  dsimp only
  rw [Value.asU64_repr hlt]
  exact if_pos hn

def u32 (numbers : Numbers) : Codec UInt32 where
  write n := .number n.toNat.repr
  read v := readUnsigned numbers (2 ^ 32) "u32" v >>= fun n => .ok (.ofNat n)
  read_write n := by
    rw [readUnsigned_repr numbers "u32" n.toNat_lt (by decide)]
    exact congrArg Except.ok UInt32.ofNat_toNat
  integral n := ⟨n.toNat, rfl⟩

def u64 (numbers : Numbers) : Codec UInt64 where
  write n := .number n.toNat.repr
  read v := readUnsigned numbers (2 ^ 64) "u64" v >>= fun n => .ok (.ofNat n)
  read_write n := by
    rw [readUnsigned_repr numbers "u64" n.toNat_lt (by decide)]
    exact congrArg Except.ok UInt64.ofNat_toNat
  integral n := ⟨n.toNat, rfl⟩

theorem integralItems_map {write : α → Value} (h : ∀ a, (write a).Integral) (as : List α) :
    Value.IntegralItems (as.map write) := by
  induction as with
  | nil => trivial
  | cons a as ih => exact ⟨h a, ih⟩

def vec (c : Codec α) : Codec (List α) where
  write as := .array (as.map c.write)
  read := readVec c.read
  read_write as := by
    refine readVec_ok.mpr ⟨_, rfl, ?_⟩
    rw [List.forall₂_map_left_iff]
    exact List.forall₂_same.mpr fun a _ => c.read_write a
  integral := integralItems_map c.integral

def option (c : Codec α) (present : ∀ a, c.write a ≠ .null) : Codec (Option α) where
  write a := (a.map c.write).getD .null
  read := readOption c.read
  read_write a := by
    cases a with
    | none => rfl
    | some a =>
      rw [Option.map_some, Option.getD_some, readOption_ne (present a), c.read_write]
      rfl
  integral a := by
    cases a with
    | none => trivial
    | some a => exact c.integral a

def optionString : Codec (Option String) := string.option fun _ h => by cases h

/-! ## Structs -/

def field (c : Codec α) (name : String) (required : Bool) : Field := .of name required c.read

theorem field_check (c : Codec α) (name : String) (required : Bool) (a : α) : (c.field name required).check (c.write a) = .ok () :=
  check_of.mpr ⟨a, c.read_write a⟩

/-- A struct is read of an object that has a value for each of its fields. -/
theorem structFields_write (name : String) {fields : List Field} (values : List Value) (hnames : (fields.map Field.name).Nodup)
    (h : List.Forall₂ (fun field v => field.check v = .ok ()) fields values) :
    structFields name fields (.object ((fields.map Field.name).zip values)) = .ok ((fields.map Field.name).zip values) := by
  have hkeys : ((fields.map Field.name).zip values).map (·.1) = fields.map Field.name := by
    apply List.map_fst_zip
    rw [List.length_map, h.length_eq]
  have hentries : visitMap fields 0 [] ((fields.map Field.name).zip values) = .ok () := by
    refine visitMap_of_checks (by rw [hkeys]; exact hnames) fun field hfield v hv => ?_
    have hmem := Value.mem_of_lastField hv
    clear hv hkeys
    induction h with
    | nil => cases hfield
    | @cons first w fields values hcheck hrest ih =>
      rw [List.map_cons, List.nodup_cons] at hnames
      rw [List.map_cons, List.zip_cons_cons, List.mem_cons] at hmem
      rcases List.mem_cons.mp hfield with rfl | hfield
      · rcases hmem with hmem | hmem
        · rw [(Prod.mk.inj hmem).2]
          exact hcheck
        · exact absurd (List.of_mem_zip hmem).1 hnames.1
      · rcases hmem with hmem | hmem
        · rw [← (Prod.mk.inj hmem).1] at hnames
          exact absurd (List.mem_map_of_mem hfield) hnames.1
        · exact ih hnames.2 hfield hmem
  rw [structFields, hentries]
  rfl

end Codec

end Llmctl
