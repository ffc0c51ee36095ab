import Llmctl.Native.GgufSound
import Llmctl.Reporting.Columnar

/-!
# What a columnar export keeps

Where a batch can be built, its columns hold the values of the rows in their order. It
cannot be built where a field is a timestamp: the schema names a time zone that the array
does not have.
-/

namespace Llmctl.DataFabric

/-! ## Lists of results -/

theorem exists_mapM {α β : Type} {f : α → Result β} {R : α → β → Prop} : ∀ {l : List α},
    (∀ a ∈ l, ∃ b, f a = .ok b ∧ R a b) → ∃ l', l.mapM f = .ok l' ∧ List.Forall₂ R l l'
  | [], _ => ⟨[], rfl, .nil⟩
  | a :: l, h => by
    obtain ⟨b, hb, hR⟩ := h a (by simp)
    obtain ⟨l', hl', hall⟩ := exists_mapM fun a ha => h a (List.mem_cons_of_mem _ ha)
    refine ⟨b :: l', ?_, .cons hR hall⟩
    simp only [List.mapM_cons, hb, hl', bind, Except.bind, pure, Except.pure]

theorem mapM_error {α β : Type} {f : α → Result β} {message : String} {a : α} {l : List α}
    (h : f a = .error message) : (a :: l).mapM f = .error message := by
  simp only [List.mapM_cons, h, bind, Except.bind]

theorem map_eq_of_forall₂ {α β γ : Type} {f : α → γ} {g : β → γ} {l : List α} {l' : List β}
    (h : List.Forall₂ (fun a b => g b = f a) l l') : l'.map g = l.map f := by
  induction h with
  | nil => rfl
  | cons h _ ih => simp [h, ih]

theorem forall₂_mem_right {α β : Type} {R : α → β → Prop} {l : List α} {l' : List β} (h : List.Forall₂ R l l') :
    ∀ b ∈ l', ∃ a ∈ l, R a b := by
  induction h with
  | nil => exact nofun
  | @cons a b l l' hR _ ih =>
    intro c hc
    rcases List.mem_cons.mp hc with rfl | hc
    · exact ⟨a, by simp, hR⟩
    · obtain ⟨a', ha', hR'⟩ := ih c hc
      exact ⟨a', List.mem_cons_of_mem _ ha', hR'⟩

theorem map_eq_iff_of_forall₂ {α β γ : Type} {f : α → γ} {g : β → γ} {p : α → Prop} {l : List α} {l' : List β}
    (h : List.Forall₂ (fun a b => g b = f a ↔ p a) l l') : l'.map g = l.map f ↔ ∀ a ∈ l, p a := by
  induction h with
  | nil => simp
  | cons h _ ih => simp [h, ih]

/-! ## Chunks -/

theorem flatten_chunks {α : Type} (size : Nat) (rows : List α) : (chunks size rows).flatten = rows := by
  fun_induction chunks size rows with
  | case1 => rfl
  | case2 row rows ih => rw [List.flatten_cons, ih, List.cons_append, List.take_append_drop]

/-! ## Values of a column -/

section
variable {F : Type} (asF64 : String → F) (parseFromRfc3339 : String → Result DateTime)

/-- What a value becomes in a column of a type. -/
def DataType.convert : DataType → Value → Option (Cell F)
  | .timestamp _ _, v => do
    let text ← v.asStr
    let t ← (parseFromRfc3339 text).toOption
    some (.timestamp t.timestampMillis)
  | .uint64, v => v.asU64.map .uint64
  | .uint32, v => (v.asU64.filter (· < 2 ^ 32)).map .uint32
  | .float64, .number text => some (.float64 (asF64 text))
  | .float64, _ => none
  | .utf8, .string s => some (.utf8 s)
  | .utf8, v => some (.utf8 v.render)

/-- A cell holds what a row has in a field. -/
structure Stores (field : FieldContract) (row : Value) (cell : Option (Cell F)) : Prop where
  none_iff : cell = none ↔ row.get field.name = none ∨ row.get field.name = some .null
  value : ∀ v, row.get field.name = some v → v ≠ .null → cell = (arrowType field.dataType).convert asF64 parseFromRfc3339 v

/-- The cells of a column, through all batches. -/
def column (batches : List (RecordBatch F)) (i : Nat) : List (Option (Cell F)) :=
  batches.flatMap fun batch => (batch.columns.map ArrayRef.cells).getD i []

structure Lossless (contract : DataContract) (rows : List Value) (batches : List (RecordBatch F)) : Prop where
  schema : ∀ batch ∈ batches, batch.schema = arrowSchema contract
  stores : ∀ i field, contract.fields[i]? = some field →
    List.Forall₂ (Stores asF64 parseFromRfc3339 field) rows (column batches i)

/-- A writer builds all batches, and they hold the rows. -/
def Exports (write : DataContract → List Value → Result (List (RecordBatch F) × Nat)) (contract : DataContract)
    (rows : List Value) : Prop :=
  ∃ batches, write contract rows = .ok (batches, rows.length) ∧ Lossless asF64 parseFromRfc3339 contract rows batches

end

/-! ## Validation -/

section
variable {F : Type} {asF64 : String → F} {parseFromRfc3339 : String → Result DateTime}

/-- A row that validation lets pass. -/
structure Accepts (parseFromRfc3339 : String → Result DateTime) (field : FieldContract) (row : Value) : Prop where
  present : row.get field.name = none ∨ row.get field.name = some .null → field.nullable = true
  valid : ∀ v, row.get field.name = some v → v ≠ .null → field.valid parseFromRfc3339 v = true

theorem validateFrom_ok_iff (field : FieldContract) : ∀ (index : Nat) (rows : List Value),
    validateFrom parseFromRfc3339 field index rows = .ok () ↔ ∀ row ∈ rows, Accepts parseFromRfc3339 field row
  | _, [] => by simp [validateFrom]
  | index, row :: rows => by
    have ih := validateFrom_ok_iff field (index + 1) rows
    rw [List.forall_mem_cons]
    simp only [validateFrom]
    split
    · rename_i h
      have hrow : Accepts parseFromRfc3339 field row ↔ field.nullable = true :=
        ⟨fun hrow => hrow.present (.inl h), fun hnull => ⟨fun _ => hnull, fun v hv => by simp [h] at hv⟩⟩
      split <;> simp [*]
    · rename_i h
      have hrow : Accepts parseFromRfc3339 field row ↔ field.nullable = true :=
        ⟨fun hrow => hrow.present (.inr h), fun hnull => ⟨fun _ => hnull, fun v hv hne => by simp_all⟩⟩
      split <;> simp [*]
    · rename_i value hne h
      have hrow : Accepts parseFromRfc3339 field row ↔ field.valid parseFromRfc3339 value = true :=
        ⟨fun hrow => hrow.valid value h hne, fun hvalid => ⟨fun hnone => by simp_all,
          fun v hv _ => by simp_all⟩⟩
      split <;> simp [*]

theorem validateFieldValues_ok_iff (field : FieldContract) (rows : List Value) :
    validateFieldValues parseFromRfc3339 field rows = .ok () ↔ ∀ row ∈ rows, Accepts parseFromRfc3339 field row :=
  validateFrom_ok_iff field 0 rows

/-! ## Conversion -/

/-- The cell of a row in the column of a field. -/
def FieldContract.cell (asF64 : String → F) (parseFromRfc3339 : String → Result DateTime) (field : FieldContract)
    (row : Value) : Option (Cell F) :=
  match row.get field.name with
  | none | some .null => none
  | some v => (arrowType field.dataType).convert asF64 parseFromRfc3339 v

theorem cell_of_none {field : FieldContract} {row : Value} (h : row.get field.name = none) :
    field.cell asF64 parseFromRfc3339 row = none := by
  unfold FieldContract.cell
  rw [h]

theorem cell_of_null {field : FieldContract} {row : Value} (h : row.get field.name = some .null) :
    field.cell asF64 parseFromRfc3339 row = none := by
  unfold FieldContract.cell
  rw [h]

theorem cell_of_value {field : FieldContract} {row v : Value} (h : row.get field.name = some v) (hne : v ≠ .null) :
    field.cell asF64 parseFromRfc3339 row = (arrowType field.dataType).convert asF64 parseFromRfc3339 v := by
  unfold FieldContract.cell
  rw [h]
  cases v with
  | null => exact absurd rfl hne
  | _ => rfl

theorem isTimestamp_uint64 : isTimestamp "uint64" = false := by decide

theorem isTimestamp_uint32 : isTimestamp "uint32" = false := by decide

theorem isTimestamp_float64 : isTimestamp "float64" = false := by decide

/-- The types that a contract can give a field; what is not known is a text. -/
theorem dataType_cases (dataType : String) : isTimestamp dataType = true ∨ dataType = "uint64" ∨ dataType = "uint32" ∨
    dataType = "float64" ∨ isTimestamp dataType = false ∧ dataType ≠ "uint64" ∧ dataType ≠ "uint32" ∧ dataType ≠ "float64" := by
  cases isTimestamp dataType <;> tauto

variable (asF64) in
/-- What passes validation can be converted. -/
theorem convert_of_valid {field : FieldContract} {v : Value} (h : field.valid parseFromRfc3339 v = true) :
    ((arrowType field.dataType).convert asF64 parseFromRfc3339 v).isSome = true := by
  unfold FieldContract.valid at h
  unfold arrowType
  rcases dataType_cases field.dataType with ht | ht | ht | ht | ⟨ht, h64, h32, hf⟩
  · rw [if_pos ht] at h ⊢
    obtain ⟨t, ht⟩ := Option.isSome_iff_exists.mp h
    obtain ⟨text, htext, ht⟩ := Option.bind_eq_some_iff.mp ht
    simp [DataType.convert, htext, ht]
  · simp only [ht, isTimestamp_uint64] at h ⊢
    simpa [DataType.convert] using h
  · simp only [ht, isTimestamp_uint32] at h ⊢
    obtain ⟨n, hn, hlt⟩ := (Option.any_eq_true _ _).mp h
    simpa [DataType.convert, hn] using hlt
  · simp only [ht, isTimestamp_float64] at h ⊢
    cases v with
    | number text => rfl
    | _ => exact absurd h Bool.false_ne_true
  · simp only [ht, h64, h32, hf]
    cases v <;> rfl

theorem stores_cell {field : FieldContract} {row : Value} (h : Accepts parseFromRfc3339 field row) :
    Stores asF64 parseFromRfc3339 field row (field.cell asF64 parseFromRfc3339 row) := by
  refine ⟨⟨fun hcell => ?_, fun hnone => ?_⟩, fun v hv hne => cell_of_value hv hne⟩
  · by_contra hnot
    push Not at hnot
    obtain ⟨v, hv⟩ := Option.ne_none_iff_exists'.mp hnot.1
    have hne : v ≠ .null := fun hnull => hnot.2 (hnull ▸ hv)
    have hsome := convert_of_valid asF64 (h.valid v hv hne)
    rw [← cell_of_value hv hne, hcell] at hsome
    exact Bool.false_ne_true hsome
  · rcases hnone with hnone | hnone
    · exact cell_of_none hnone
    · exact cell_of_null hnone

variable (asF64) in
/-- What a column reads of its rows, where what it reads of a value is the value converted. -/
theorem values_ok {α : Type} {field : FieldContract} {rows : List Value} (read : Option Value → Result (Option α))
    (cell : α → Cell F) (h : ∀ row ∈ rows, Accepts parseFromRfc3339 field row) (hnone : read none = .ok none)
    (hnull : read (some .null) = .ok none)
    (hvalue : ∀ v, field.valid parseFromRfc3339 v = true → ∃ x, read (some v) = .ok (some x) ∧
      (arrowType field.dataType).convert asF64 parseFromRfc3339 v = some (cell x)) :
    ∃ values, (rows.mapM fun row => read (row.get field.name)) = .ok values ∧
      values.map (Option.map cell) = rows.map (field.cell asF64 parseFromRfc3339) := by
  have hread : ∀ row ∈ rows, ∃ x, read (row.get field.name) = .ok x ∧ x.map cell = field.cell asF64 parseFromRfc3339 row := by
    intro row hrow
    cases hv : row.get field.name with
    | none => exact ⟨none, hnone, (cell_of_none hv).symm⟩
    | some v =>
      by_cases hv' : v = .null
      · subst hv'
        exact ⟨none, hnull, (cell_of_null hv).symm⟩
      · obtain ⟨x, hx, hcell⟩ := hvalue v ((h row hrow).valid v hv hv')
        exact ⟨some x, hx, by rw [cell_of_value hv hv', hcell, Option.map_some]⟩
  obtain ⟨values, hvalues, hall⟩ := exists_mapM hread
  exact ⟨values, hvalues, map_eq_of_forall₂ hall⟩

section
variable {field : FieldContract} {v : Value} (h : field.valid parseFromRfc3339 v = true)
include h

theorem timestampMillis_ok (ht : isTimestamp field.dataType = true) :
    ∃ x, timestampMillis parseFromRfc3339 (some v) = .ok (some x) ∧
      (arrowType field.dataType).convert asF64 parseFromRfc3339 v = some (.timestamp x) := by
  simp only [FieldContract.valid, if_pos ht] at h
  obtain ⟨t, hsome⟩ := Option.isSome_iff_exists.mp h
  obtain ⟨text, htext, hparse⟩ := Option.bind_eq_some_iff.mp hsome
  have hok : parseFromRfc3339 text = .ok t := by
    cases hresult : parseFromRfc3339 text <;> simp_all [Except.toOption]
  refine ⟨t.timestampMillis, ?_, ?_⟩
  · simp only [timestampMillis, Option.bind_some, htext, hok, bind, Except.bind]
  · rw [arrowType, if_pos ht]
    simp [DataType.convert, htext, hparse]

theorem optionalU64_ok (ht : field.dataType = "uint64") :
    ∃ n, optionalU64 (some v) = .ok (some n) ∧
      (arrowType field.dataType).convert asF64 parseFromRfc3339 v = some (.uint64 n) := by
  simp [FieldContract.valid, ht, isTimestamp_uint64] at h
  obtain ⟨n, hn⟩ := Option.isSome_iff_exists.mp h
  refine ⟨n, ?_, by simp [arrowType, ht, isTimestamp_uint64, DataType.convert, hn]⟩
  cases v with
  | number text => simp only [optionalU64, hn]
  | _ => exact absurd hn nofun

theorem optionalU32_ok (ht : field.dataType = "uint32") :
    ∃ n, optionalU32 (some v) = .ok (some n) ∧
      (arrowType field.dataType).convert asF64 parseFromRfc3339 v = some (.uint32 n) := by
  simp only [FieldContract.valid, ht, isTimestamp_uint32] at h
  obtain ⟨n, hn, hlt⟩ := (Option.any_eq_true _ _).mp h
  replace hlt : n < 2 ^ 32 := of_decide_eq_true hlt
  refine ⟨n, ?_, ?_⟩
  · cases v with
    | number text => simp only [optionalU32, optionalU64, hn, bind, Except.bind, if_pos hlt]
    | _ => exact absurd hn nofun
  · simpa [arrowType, ht, isTimestamp_uint32, DataType.convert, hn] using hlt

theorem optionalF64_ok (ht : field.dataType = "float64") :
    ∃ x, optionalF64 asF64 (some v) = .ok (some x) ∧
      (arrowType field.dataType).convert asF64 parseFromRfc3339 v = some (.float64 x) := by
  simp [FieldContract.valid, ht, isTimestamp_float64] at h
  cases v with
  | number text => exact ⟨asF64 text, rfl, by simp [arrowType, ht, isTimestamp_float64, DataType.convert]⟩
  | _ => exact absurd h Bool.false_ne_true

end

theorem optionalString_eq {field : FieldContract} {row : Value} (ht : isTimestamp field.dataType = false)
    (h : field.dataType ≠ "uint64" ∧ field.dataType ≠ "uint32" ∧ field.dataType ≠ "float64") :
    (optionalString (row.get field.name)).map .utf8 = field.cell asF64 parseFromRfc3339 row := by
  have hutf8 : arrowType field.dataType = .utf8 := by simp [arrowType, ht, h]
  cases hv : row.get field.name with
  | none => exact (cell_of_none hv).symm
  | some v =>
    cases v with
    | null => exact (cell_of_null hv).symm
    | _ =>
      rw [cell_of_value hv nofun, hutf8]
      rfl

/-! ## Columns -/

variable (asF64) in
/-- The array of a field holds its cells. The time zone of a timestamp is lost. -/
theorem arrayForField_ok {field : FieldContract} {rows : List Value} (h : ∀ row ∈ rows, Accepts parseFromRfc3339 field row) :
    ∃ array, arrayForField asF64 parseFromRfc3339 field rows = .ok array ∧
      array.cells = rows.map (field.cell asF64 parseFromRfc3339) ∧
      (array.dataType = arrowType field.dataType ↔ isTimestamp field.dataType = false) := by
  have hvalidate := (validateFieldValues_ok_iff field rows).mpr h
  unfold arrayForField
  rw [hvalidate]
  rcases dataType_cases field.dataType with ht | ht | ht | ht | ⟨ht, hother⟩
  · obtain ⟨values, hvalues, hcells⟩ := values_ok asF64 (timestampMillis parseFromRfc3339) .timestamp h rfl rfl fun v hv => timestampMillis_ok hv ht
    refine ⟨.timestampMillisecond none values, ?_, hcells, ?_⟩
    · simp only [ht, if_true, hvalues, bind, Except.bind]
    · simp [ArrayRef.dataType, arrowType, ht]
  · obtain ⟨values, hvalues, hcells⟩ := values_ok asF64 optionalU64 .uint64 h rfl rfl fun v hv => optionalU64_ok hv ht
    refine ⟨.uint64 values, ?_, hcells, ?_⟩
    · simp [ht, isTimestamp_uint64, hvalues, bind, Except.bind]
    · simp [ArrayRef.dataType, arrowType, ht, isTimestamp_uint64]
  · obtain ⟨values, hvalues, hcells⟩ := values_ok asF64 optionalU32 .uint32 h rfl rfl fun v hv => optionalU32_ok hv ht
    refine ⟨.uint32 values, ?_, hcells, ?_⟩
    · simp [ht, isTimestamp_uint32, hvalues, bind, Except.bind]
    · simp [ArrayRef.dataType, arrowType, ht, isTimestamp_uint32]
  · obtain ⟨values, hvalues, hcells⟩ := values_ok asF64 (optionalF64 asF64) .float64 h rfl rfl fun v hv => optionalF64_ok hv ht
    refine ⟨.float64 values, ?_, hcells, ?_⟩
    · simp [ht, isTimestamp_float64, hvalues, bind, Except.bind]
    · simp [ArrayRef.dataType, arrowType, ht, isTimestamp_float64]
  · refine ⟨.string (rows.map fun row => optionalString (row.get field.name)), ?_, ?_, ?_⟩
    · simp [ht, hother, bind, Except.bind]
    · rw [ArrayRef.cells, List.map_map]
      exact List.map_congr_left fun row _ => optionalString_eq ht hother
    · simp [ArrayRef.dataType, arrowType, ht, hother]

/-! ## Batches -/

section
variable {contract : DataContract} {rows : List Value} {columns : List (ArrayRef F)}

/-- What is known of the array of a field. -/
def Holds (asF64 : String → F) (parseFromRfc3339 : String → Result DateTime) (rows : List Value) (field : FieldContract)
    (array : ArrayRef F) : Prop :=
  array.cells = rows.map (field.cell asF64 parseFromRfc3339) ∧
    (array.dataType = arrowType field.dataType ↔ isTimestamp field.dataType = false)

theorem fits_iff (h : ∀ field ∈ contract.fields, ∀ row ∈ rows, Accepts parseFromRfc3339 field row)
    (hcolumns : List.Forall₂ (Holds asF64 parseFromRfc3339 rows) contract.fields columns) :
    Fits (arrowSchema contract) columns ↔ ∀ field ∈ contract.fields, isTimestamp field.dataType = false := by
  have hmem : ∀ c ∈ columns, c.len = rows.length := by
    intro c hc
    obtain ⟨field, -, hcells, -⟩ := forall₂_mem_right hcolumns c hc
    rw [ArrayRef.len, hcells, List.length_map]
  have hdataTypes : columns.map ArrayRef.dataType = (arrowSchema contract).map Field.dataType ↔
      ∀ field ∈ contract.fields, isTimestamp field.dataType = false := by
    rw [arrowSchema, List.map_map]
    exact map_eq_iff_of_forall₂ (hcolumns.imp fun _ _ hholds => hholds.2)
  constructor
  · exact fun hfits => hdataTypes.mp hfits.dataTypes
  · intro hts
    refine ⟨fun c hc d hd => (hmem c hc).trans (hmem d hd).symm, hdataTypes.mpr hts, ?_⟩
    rintro ⟨f, c⟩ hp hnull
    rw [arrowSchema, List.zip_map_left] at hp
    obtain ⟨⟨field, c'⟩, hzip, heq⟩ := List.mem_map.mp hp
    cases heq
    show c'.nullCount = 0
    rw [ArrayRef.nullCount, (List.forall₂_zip hcolumns hzip).1, List.countP_eq_zero]
    intro cell hcell hnone
    obtain ⟨row, hrow, rfl⟩ := List.mem_map.mp hcell
    have haccepts := h field (List.of_mem_zip hzip).1 row hrow
    have hpresent := haccepts.present ((stores_cell haccepts).none_iff.mp (Option.isNone_iff_eq_none.mp hnone))
    exact Bool.false_ne_true (hnull.symm.trans hpresent)

variable (asF64) in
theorem recordBatch_ok (h : ∀ field ∈ contract.fields, ∀ row ∈ rows, Accepts parseFromRfc3339 field row)
    (hts : ∀ field ∈ contract.fields, isTimestamp field.dataType = false) :
    ∃ batch, recordBatchWithSchema asF64 parseFromRfc3339 contract (arrowSchema contract) rows = .ok batch ∧
      batch.schema = arrowSchema contract ∧
      batch.columns.map ArrayRef.cells =
        contract.fields.map fun field => rows.map (field.cell asF64 parseFromRfc3339) := by
  obtain ⟨columns, hcolumns, hholds⟩ :=
    exists_mapM fun field hfield => arrayForField_ok asF64 (h field hfield)
  have hfits := (fits_iff h hholds).mpr hts
  refine ⟨⟨arrowSchema contract, columns, hfits⟩, ?_, rfl, map_eq_of_forall₂ (hholds.imp fun _ _ hfield => hfield.1)⟩
  simp only [recordBatchWithSchema, hcolumns, bind, Except.bind, RecordBatch.tryNew, dif_pos hfits]

variable (asF64) in
theorem recordBatch_error (h : ∀ field ∈ contract.fields, ∀ row ∈ rows, Accepts parseFromRfc3339 field row)
    (hts : ¬ ∀ field ∈ contract.fields, isTimestamp field.dataType = false) :
    recordBatchWithSchema asF64 parseFromRfc3339 contract (arrowSchema contract) rows = .error "invalid argument" := by
  obtain ⟨columns, hcolumns, hholds⟩ :=
    exists_mapM fun field hfield => arrayForField_ok asF64 (h field hfield)
  have hfits := mt (fits_iff h hholds).mp hts
  simp only [recordBatchWithSchema, hcolumns, bind, Except.bind, RecordBatch.tryNew, dif_neg hfits]

end

/-! ## Whole files -/

section
variable {contract : DataContract} {rows : List Value}

variable (asF64 parseFromRfc3339 contract rows) in
theorem writeBatches_eq : ∃ part parts, (part :: parts).flatten = rows ∧
    writeBatches asF64 parseFromRfc3339 contract rows =
      ((part :: parts).mapM (recordBatchWithSchema asF64 parseFromRfc3339 contract (arrowSchema contract)) >>= fun batches =>
        .ok (batches, rows.length)) := by
  cases rows with
  | nil => exact ⟨[], [], rfl, rfl⟩
  | cons row rows =>
    refine ⟨row :: rows.take (defaultArrowBatchRows - 1), chunks defaultArrowBatchRows (rows.drop (defaultArrowBatchRows - 1)),
      ?_, ?_⟩
    · rw [← chunks]
      exact flatten_chunks _ _
    · rw [← chunks]
      rfl

/-- The cells of all batches are those of all rows. -/
theorem column_eq {parts : List (List Value)} {batches : List (RecordBatch F)} {i : Nat} {field : FieldContract}
    (hfield : contract.fields[i]? = some field)
    (h : List.Forall₂ (fun part batch => batch.schema = arrowSchema contract ∧ batch.columns.map ArrayRef.cells =
      contract.fields.map fun field => part.map (field.cell asF64 parseFromRfc3339)) parts batches) :
    column batches i = parts.flatten.map (field.cell asF64 parseFromRfc3339) := by
  induction h with
  | nil => rfl
  | @cons part batch parts batches hbatch _ ih =>
    rw [column, List.flatMap_cons, ← column, ih, List.flatten_cons, List.map_append, hbatch.2]
    simp [hfield]

variable (asF64) in
theorem exports_writeBatches_iff (h : ∀ field ∈ contract.fields, validateFieldValues parseFromRfc3339 field rows = .ok ()) :
    Exports asF64 parseFromRfc3339 (writeBatches asF64 parseFromRfc3339) contract rows ↔
      ∀ field ∈ contract.fields, isTimestamp field.dataType = false := by
  have haccepts : ∀ field ∈ contract.fields, ∀ row ∈ rows, Accepts parseFromRfc3339 field row :=
    fun field hfield => (validateFieldValues_ok_iff field rows).mp (h field hfield)
  obtain ⟨part, parts, hflatten, hwrite⟩ := writeBatches_eq asF64 parseFromRfc3339 contract rows
  have hpart : ∀ p ∈ part :: parts, ∀ field ∈ contract.fields, ∀ row ∈ p, Accepts parseFromRfc3339 field row := by
    intro p hp field hfield row hrow
    refine haccepts field hfield row ?_
    rw [← hflatten]
    exact List.mem_flatten_of_mem hp hrow
  constructor
  · rintro ⟨batches, hok, -⟩
    by_contra hts
    rw [hwrite, mapM_error (recordBatch_error asF64 (hpart part (by simp)) hts)] at hok
    exact absurd hok nofun
  · intro hts
    obtain ⟨batches, hbatches, hall⟩ := exists_mapM fun p hp => recordBatch_ok asF64 (hpart p hp) hts
    refine ⟨batches, by rw [hwrite, hbatches]; rfl, fun batch hbatch => ?_, fun i field hfield => ?_⟩
    · obtain ⟨p, -, hschema, -⟩ := forall₂_mem_right hall batch hbatch
      exact hschema
    · rw [column_eq hfield hall, hflatten, List.forall₂_map_right_iff, List.forall₂_same]
      exact fun row hrow => stores_cell (haccepts field (List.mem_of_getElem? hfield) row hrow)

/-- Rows that pass validation are exported as they are just where no field is a timestamp. -/
theorem exports_iff (h : ∀ field ∈ contract.fields, validateFieldValues parseFromRfc3339 field rows = .ok ()) :
    (Exports asF64 parseFromRfc3339 (writeArrowIpc asF64 parseFromRfc3339) contract rows ∧
      Exports asF64 parseFromRfc3339 (writeParquet asF64 parseFromRfc3339) contract rows) ↔
      ∀ field ∈ contract.fields, isTimestamp field.dataType = false := by
  rw [← exports_writeBatches_iff asF64 h]
  exact and_self_iff

end

end

/-- Of the datasets, only two have no time. -/
theorem no_timestamp_iff (dataset : DatasetKind) :
    (∀ field ∈ (contractFor dataset).fields, isTimestamp field.dataType = false) ↔ dataset = .user ∨ dataset = .finops := by
  cases dataset <;> decide

/-! ## Two exports -/

def sampleTime (text : String) : Result DateTime :=
  if text = "2026-05-17T00:00:00Z" then .ok ⟨1778976000, 0⟩ else .error s!"parse timestamp {text}"

def finopsRow : Value := .object [("team", .string "platform"), ("actor", .null), ("request_count", .number "3"),
  ("total_tokens", .number "18446744073709551615"), ("total_latency_ms", .number "10")]

def usageRow : Value := .object [("at", .string "2026-05-17T00:00:00Z"), ("request_id", .string "req"), ("model", .string "qwen"),
  ("actor", .string "alice"), ("team", .string "platform"), ("input_tokens", .number "1"), ("output_tokens", .number "1"),
  ("latency_ms", .number "10"), ("status", .string "ok")]

theorem finops_exported :
    Exports id sampleTime (writeArrowIpc id sampleTime) (contractFor .finops) [finopsRow] ∧
      Exports id sampleTime (writeParquet id sampleTime) (contractFor .finops) [finopsRow] :=
  (exports_iff (by decide +kernel)).mpr ((no_timestamp_iff .finops).mpr (.inr rfl))

/-- Usage has a time, and no row of it can be exported. -/
theorem usage_not_exported :
    (∀ field ∈ (contractFor .usage).fields, validateFieldValues sampleTime field [usageRow] = .ok ()) ∧
      ¬ Exports id sampleTime (writeArrowIpc id sampleTime) (contractFor .usage) [usageRow] ∧
      ¬ Exports id sampleTime (writeParquet id sampleTime) (contractFor .usage) [usageRow] := by
  have hvalid : ∀ field ∈ (contractFor .usage).fields, validateFieldValues sampleTime field [usageRow] = .ok () := by
    decide +kernel
  have hnot : ¬ Exports id sampleTime (writeBatches id sampleTime) (contractFor .usage) [usageRow] := by
    rw [exports_writeBatches_iff id hvalid, no_timestamp_iff]
    decide
  exact ⟨hvalid, hnot, hnot⟩

end Llmctl.DataFabric
