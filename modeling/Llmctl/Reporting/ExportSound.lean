import Llmctl.Reporting.Export

/-!
# Exports are complete or refused

A query that may give one row more than the limit gives all rows of the window, or more
than the limit; so what passes the check is complete. The clamp to one row changes nothing,
and where the addition saturates no table has that many rows.
-/

namespace Llmctl

open Calendar

/-! ## One table -/

/-- The rows that a query for an export gives. -/
def selected {α : Type} (maxRows : Option Nat) (rows : List α) : List α :=
  match queryLimit maxRows with
  | none => rows
  | some limit => rows.take limit

theorem selected_length_le_iff {α : Type} {rows : List α} (hrows : rows.length < 2 ^ 63) (maxRows : Nat) :
    (selected (some maxRows) rows).length ≤ maxRows ↔ rows.length ≤ maxRows := by
  simp only [selected, queryLimit, Option.map_some, List.length_take]
  omega

theorem selected_eq {α : Type} {maxRows : Option Nat} {rows : List α} (hrows : rows.length < 2 ^ 63)
    (h : ∀ m, maxRows = some m → (selected maxRows rows).length ≤ m) : selected maxRows rows = rows := by
  cases maxRows with
  | none => rfl
  | some m =>
    have hlength := (selected_length_le_iff hrows m).mp (h m rfl)
    simp only [selected, queryLimit, Option.map_some]
    exact List.take_of_length_le (by omega)

/-! ## The checks -/

theorem ensureLimited_ok_iff {dataset : String} {count maxRows : Nat} : ensureLimited dataset count maxRows = .ok () ↔ count ≤ maxRows := by
  unfold ensureLimited
  split <;> simp_all

theorem ensureEach_ok_iff {counts : List (String × Nat)} {maxRows : Nat} :
    ensureEach maxRows counts = .ok () ↔ ∀ count ∈ counts, count.2 ≤ maxRows := by
  induction counts with
  | nil => simp [ensureEach]
  | cons count counts ih =>
    rw [List.forall_mem_cons, ← ih, ensureEach]
    constructor
    · intro h
      obtain ⟨_, hfirst, hrest⟩ := ok_of_bind h
      exact ⟨ensureLimited_ok_iff.mp hfirst, hrest⟩
    · rintro ⟨hfirst, hrest⟩
      rw [ensureLimited_ok_iff.mpr hfirst]
      exact hrest

theorem ensureAll_ok_iff {counts : List (String × Nat)} {maxRows : Option Nat} :
    ensureAll counts maxRows = .ok () ↔ ∀ m, maxRows = some m → ∀ count ∈ counts, count.2 ≤ m := by
  cases maxRows with
  | none => simp [ensureAll]
  | some m =>
    simp only [Option.some.injEq, forall_eq']
    exact ensureEach_ok_iff

theorem refused_iff {β : Type} {counts : List (String × Nat)} {maxRows : Option Nat} {b : β} :
    (∃ e, (ensureAll counts maxRows >>= fun _ => (.ok b : Result β)) = .error e) ↔
      ∃ m, maxRows = some m ∧ ∃ count ∈ counts, m < count.2 := by
  have hnot : (∃ m, maxRows = some m ∧ ∃ count ∈ counts, m < count.2) ↔ ¬ ensureAll counts maxRows = .ok () := by
    rw [ensureAll_ok_iff]
    push Not
    rfl
  rw [hnot]
  cases ensureAll counts maxRows with
  | error e => exact iff_of_true ⟨e, rfl⟩ nofun
  | ok _ => exact iff_of_false (by rintro ⟨_, ⟨⟩⟩) (fun h => h rfl)

/-! ## What is requested -/

def allWindowed : List Dataset := [.audit, .usage, .observability, .quota, .lineage]

/-- The datasets of a kind. -/
def requested : DatasetKind → List Dataset
  | .security => [.audit, .quota]
  | .observability | .drift => [.observability]
  | .usage | .user | .finops => [.usage]
  | .models => [.models]
  | .audit => [.audit]
  | .lineage => [.lineage]

section
variable {F : Type} (toRfc3339 : Instant → String) (st : ExportStorage F) (from_ to_ : Instant)

/-- The rows of the window, of the models all. -/
def datasetCount : Dataset → Nat
  | .audit => (rowsBetween toRfc3339 st.auditEvents.rows from_ to_).length
  | .usage => (rowsBetween toRfc3339 st.usageEvents.rows from_ to_).length
  | .observability => (rowsBetween toRfc3339 st.observationEvents.rows from_ to_).length
  | .quota => (rowsBetween toRfc3339 st.quotaDecisions.rows from_ to_).length
  | .lineage => (rowsBetween toRfc3339 st.requestLineageJoins.rows from_ to_).length
  | .models => st.modelInventory.length

/-- The dataset has exactly the rows of the window, by time and id. -/
def Complete (datasets : Datasets F) : Dataset → Prop
  | .audit => datasets.auditEvents = rowsBetween toRfc3339 st.auditEvents.rows from_ to_
  | .usage => datasets.usageEvents = rowsBetween toRfc3339 st.usageEvents.rows from_ to_
  | .observability => datasets.observationEvents = rowsBetween toRfc3339 st.observationEvents.rows from_ to_
  | .quota => datasets.quotaDecisions = rowsBetween toRfc3339 st.quotaDecisions.rows from_ to_
  | .lineage => datasets.lineage = rowsBetween toRfc3339 st.requestLineageJoins.rows from_ to_
  | .models => datasets.models =
      (st.modelInventory.insertionSort fun left right => left.alias_ ≤ right.alias_).map .fromRecord

/-- No read of the dataset fails. -/
def ReadOk (maxRows : Option Nat) (dataset : Dataset) : Prop :=
  st.failure dataset (if dataset = .models then none else limitClause (queryLimit maxRows)) = none

def Exceeds (maxRows : Option Nat) (datasets : List Dataset) : Prop :=
  ∃ m, maxRows = some m ∧ ∃ dataset ∈ datasets, m < datasetCount toRfc3339 st from_ to_ dataset

variable {toRfc3339 st from_ to_}

theorem length_rowsBetween_lt {α : Type} (table : Table α) : (rowsBetween toRfc3339 table.rows from_ to_).length < 2 ^ 63 := by
  unfold rowsBetween
  rw [List.length_insertionSort]
  exact Nat.lt_of_le_of_lt (List.length_filter_le _ _) table.length_lt

theorem betweenLimited_eq {α : Type} {dataset : Dataset} {table : Table α} {maxRows : Option Nat}
    (h : st.failure dataset (limitClause (queryLimit maxRows)) = none) :
    betweenLimited toRfc3339 st from_ to_ dataset table (queryLimit maxRows) =
      .ok (selected maxRows (rowsBetween toRfc3339 table.rows from_ to_)) := by
  unfold betweenLimited
  rw [h]
  cases maxRows with
  | none => rfl
  | some m =>
    have hclamp : max (min (m + 1) (2 ^ 64 - 1)) 1 = min (m + 1) (2 ^ 64 - 1) := by omega
    simp only [limitClause, selected, queryLimit, Option.map_some, hclamp]

theorem betweenLimited_ok {α : Type} {dataset : Dataset} {table : Table α} {maxRows : Option Nat} {rows : List (Row α)}
    (h : betweenLimited toRfc3339 st from_ to_ dataset table (queryLimit maxRows) = .ok rows) :
    rows = selected maxRows (rowsBetween toRfc3339 table.rows from_ to_) := by
  cases hfailure : st.failure dataset (limitClause (queryLimit maxRows)) with
  | some e =>
    unfold betweenLimited at h
    rw [hfailure] at h
    cases h
  | none =>
    rw [betweenLimited_eq hfailure] at h
    cases h
    rfl

/-- What was read and passed its check is complete. -/
theorem betweenLimited_complete {α : Type} {dataset : Dataset} {table : Table α} {maxRows : Option Nat} {rows : List (Row α)}
    (h : betweenLimited toRfc3339 st from_ to_ dataset table (queryLimit maxRows) = .ok rows)
    (hcheck : ∀ m, maxRows = some m → rows.length ≤ m) : rows = rowsBetween toRfc3339 table.rows from_ to_ := by
  rw [betweenLimited_ok h] at hcheck ⊢
  exact selected_eq (length_rowsBetween_lt table) hcheck

theorem lt_selected_iff {α : Type} (table : Table α) {m : Nat} :
    m < (selected (some m) (rowsBetween toRfc3339 table.rows from_ to_)).length ↔
      m < (rowsBetween toRfc3339 table.rows from_ to_).length := by
  rw [← not_le, ← not_le, selected_length_le_iff (length_rowsBetween_lt table)]

/-- The counts that are checked say what the tables hold. -/
theorem exceeds_iff {maxRows : Option Nat} {counts : List (String × Nat)} {datasets : List Dataset}
    (h : ∀ m, maxRows = some m →
      ((∃ count ∈ counts, m < count.2) ↔ ∃ dataset ∈ datasets, m < datasetCount toRfc3339 st from_ to_ dataset)) :
    (∃ m, maxRows = some m ∧ ∃ count ∈ counts, m < count.2) ↔ Exceeds toRfc3339 st from_ to_ maxRows datasets :=
  exists_congr fun m => and_congr_right fun hm => h m hm

theorem listModels_eq (h : st.failure .models none = none) :
    st.listModels = .ok (st.modelInventory.insertionSort fun left right => left.alias_ ≤ right.alias_) := by
  unfold ExportStorage.listModels
  rw [h]

/-- What was read is complete once its count has passed. -/
theorem complete_of_check {α : Type} {dataset : Dataset} {table : Table α} {maxRows : Option Nat} {rows : List (Row α)}
    {counts : List (String × Nat)} (name : String)
    (hread : betweenLimited toRfc3339 st from_ to_ dataset table (queryLimit maxRows) = .ok rows)
    (hcheck : ensureAll counts maxRows = .ok ()) (hmem : (name, rows.length) ∈ counts) :
    rows = rowsBetween toRfc3339 table.rows from_ to_ :=
  betweenLimited_complete hread fun m hm => ensureAll_ok_iff.mp hcheck m hm _ hmem

theorem dataExportLimited_complete {maxRows : Option Nat} {export_ : DataExport F}
    (h : dataExportLimited toRfc3339 st from_ to_ maxRows = .ok export_) :
    ∀ dataset ∈ allWindowed, Complete toRfc3339 st from_ to_ export_.toDatasets dataset := by
  obtain ⟨audit, haudit, h⟩ := ok_of_bind h
  obtain ⟨usage, husage, h⟩ := ok_of_bind h
  obtain ⟨observation, hobservation, h⟩ := ok_of_bind h
  obtain ⟨quota, hquota, h⟩ := ok_of_bind h
  obtain ⟨lineage, hlineage, h⟩ := ok_of_bind h
  obtain ⟨_, hcheck, h⟩ := ok_of_bind h
  obtain ⟨models, -, h⟩ := ok_of_bind h
  cases h
  intro dataset hdataset
  simp only [allWindowed, List.mem_cons, List.not_mem_nil, or_false] at hdataset
  rcases hdataset with rfl | rfl | rfl | rfl | rfl
  · exact complete_of_check "audit" haudit hcheck (by simp [dataExport])
  · exact complete_of_check "usage" husage hcheck (by simp [dataExport])
  · exact complete_of_check "observability" hobservation hcheck (by simp [dataExport])
  · exact complete_of_check "quota" hquota hcheck (by simp [dataExport])
  · exact complete_of_check "lineage" hlineage hcheck (by simp [dataExport])

theorem dataExportLimited_refused_iff {maxRows : Option Nat} (hmodels : ReadOk st maxRows .models)
    (hreads : ∀ dataset ∈ allWindowed, ReadOk st maxRows dataset) :
    (∃ e, dataExportLimited toRfc3339 st from_ to_ maxRows = .error e) ↔ Exceeds toRfc3339 st from_ to_ maxRows allWindowed := by
  unfold dataExportLimited auditEventsBetweenLimited usageEventsBetweenLimited observationEventsBetweenLimited
    quotaDecisionsBetweenLimited requestLineageJoinsBetweenLimited
  rw [betweenLimited_eq (hreads .audit (by simp [allWindowed])), betweenLimited_eq (hreads .usage (by simp [allWindowed])),
    betweenLimited_eq (hreads .observability (by simp [allWindowed])), betweenLimited_eq (hreads .quota (by simp [allWindowed])),
    betweenLimited_eq (hreads .lineage (by simp [allWindowed])), listModels_eq hmodels]
  refine refused_iff.trans (exceeds_iff fun m hm => ?_)
  subst hm
  simp only [allWindowed, List.exists_mem_cons_iff, List.not_mem_nil, false_and, exists_false, or_false, lt_selected_iff, datasetCount]

theorem datasetLimited_complete {kind : DatasetKind} {maxRows : Option Nat} {datasets : Datasets F}
    (h : datasetLimited toRfc3339 st from_ to_ kind maxRows = .ok datasets) :
    ∀ dataset ∈ requested kind, Complete toRfc3339 st from_ to_ datasets dataset := by
  cases kind with
  | security =>
    obtain ⟨audit, haudit, h⟩ := ok_of_bind h
    obtain ⟨quota, hquota, h⟩ := ok_of_bind h
    obtain ⟨_, hcheck, h⟩ := ok_of_bind h
    cases h
    rw [requested, List.forall_mem_cons, List.forall_mem_singleton]
    exact ⟨complete_of_check "audit" haudit hcheck List.mem_cons_self, complete_of_check "quota" hquota hcheck (List.mem_cons_of_mem _ List.mem_cons_self)⟩
  | observability | drift =>
    obtain ⟨observation, hread, h⟩ := ok_of_bind h
    obtain ⟨_, hcheck, h⟩ := ok_of_bind h
    cases h
    rw [requested, List.forall_mem_singleton]
    exact complete_of_check _ hread hcheck List.mem_cons_self
  | usage | user | finops =>
    obtain ⟨usage, hread, h⟩ := ok_of_bind h
    obtain ⟨_, hcheck, h⟩ := ok_of_bind h
    cases h
    rw [requested, List.forall_mem_singleton]
    exact complete_of_check _ hread hcheck List.mem_cons_self
  | models =>
    obtain ⟨models, hread, h⟩ := ok_of_bind h
    obtain ⟨_, hcheck, h⟩ := ok_of_bind h
    cases h
    rw [requested, List.forall_mem_singleton]
    cases hfailure : st.failure .models none with
    | some e =>
      unfold ExportStorage.listModels at hread
      rw [hfailure] at hread
      cases hread
    | none =>
      rw [listModels_eq hfailure] at hread
      cases hread
      rfl
  | audit =>
    obtain ⟨audit, hread, h⟩ := ok_of_bind h
    obtain ⟨_, hcheck, h⟩ := ok_of_bind h
    cases h
    rw [requested, List.forall_mem_singleton]
    exact complete_of_check _ hread hcheck List.mem_cons_self
  | lineage =>
    obtain ⟨lineage, hread, h⟩ := ok_of_bind h
    obtain ⟨_, hcheck, h⟩ := ok_of_bind h
    cases h
    rw [requested, List.forall_mem_singleton]
    exact complete_of_check _ hread hcheck List.mem_cons_self

/-- One read with one check. -/
theorem single_refused_iff {α : Type} {dataset : Dataset} {table : Table α} {name : String} {maxRows : Option Nat}
    {pack : List (Row α) → Datasets F} (hread : st.failure dataset (limitClause (queryLimit maxRows)) = none)
    (hcount : datasetCount toRfc3339 st from_ to_ dataset = (rowsBetween toRfc3339 table.rows from_ to_).length) :
    (∃ e, (betweenLimited toRfc3339 st from_ to_ dataset table (queryLimit maxRows) >>= fun rows =>
        ensureAll [(name, rows.length)] maxRows >>= fun _ => pure (pack rows)) = .error e) ↔
      Exceeds toRfc3339 st from_ to_ maxRows [dataset] := by
  rw [betweenLimited_eq hread]
  refine refused_iff.trans (exceeds_iff fun m hm => ?_)
  subst hm
  simp only [List.mem_singleton, exists_eq_left, lt_selected_iff, hcount]

theorem datasetLimited_refused_iff {kind : DatasetKind} {maxRows : Option Nat}
    (hreads : ∀ dataset ∈ requested kind, ReadOk st maxRows dataset) :
    (∃ e, datasetLimited toRfc3339 st from_ to_ kind maxRows = .error e) ↔ Exceeds toRfc3339 st from_ to_ maxRows (requested kind) := by
  cases kind with
  | security =>
    unfold datasetLimited auditEventsBetweenLimited quotaDecisionsBetweenLimited
    simp only [betweenLimited_eq (hreads .audit (by simp [requested])), betweenLimited_eq (hreads .quota (by simp [requested]))]
    refine refused_iff.trans (exceeds_iff fun m hm => ?_)
    subst hm
    simp only [requested, List.exists_mem_cons_iff, List.not_mem_nil, false_and, exists_false, or_false, lt_selected_iff, datasetCount]
  | observability => exact single_refused_iff (hreads .observability List.mem_cons_self) rfl
  | drift => exact single_refused_iff (hreads .observability List.mem_cons_self) rfl
  | usage => exact single_refused_iff (hreads .usage List.mem_cons_self) rfl
  | user => exact single_refused_iff (hreads .usage List.mem_cons_self) rfl
  | finops => exact single_refused_iff (hreads .usage List.mem_cons_self) rfl
  | models =>
    unfold datasetLimited
    simp only [listModels_eq (hreads .models List.mem_cons_self)]
    refine refused_iff.trans (exceeds_iff fun m _ => ?_)
    simp [requested, datasetCount]
  | audit => exact single_refused_iff (hreads .audit List.mem_cons_self) rfl
  | lineage => exact single_refused_iff (hreads .lineage List.mem_cons_self) rfl

end

/-- An export that is given has all rows of its window, by time and id; and where no read
fails it is refused exactly for a dataset that has more rows than it may. -/
theorem dataExport_complete_or_refused {F : Type} (toRfc3339 : Instant → String) (st : ExportStorage F) (from_ to_ : Instant)
    (maxRows : Option Nat) :
    (∀ export_, dataExportLimited toRfc3339 st from_ to_ maxRows = .ok export_ →
        ∀ dataset ∈ allWindowed, Complete toRfc3339 st from_ to_ export_.toDatasets dataset) ∧
      (ReadOk st maxRows .models → (∀ dataset ∈ allWindowed, ReadOk st maxRows dataset) →
        ((∃ e, dataExportLimited toRfc3339 st from_ to_ maxRows = .error e) ↔
          Exceeds toRfc3339 st from_ to_ maxRows allWindowed)) ∧
      ∀ kind,
        (∀ export_, dataExportDatasetLimited toRfc3339 st from_ to_ kind maxRows = .ok export_ →
          ∀ dataset ∈ requested kind, Complete toRfc3339 st from_ to_ export_.toDatasets dataset) ∧
        ((∀ dataset ∈ requested kind, ReadOk st maxRows dataset) →
          ((∃ e, dataExportDatasetLimited toRfc3339 st from_ to_ kind maxRows = .error e) ↔
            Exceeds toRfc3339 st from_ to_ maxRows (requested kind))) := by
  refine ⟨fun export_ h => dataExportLimited_complete h, dataExportLimited_refused_iff, fun kind => ⟨fun export_ h => ?_, fun hreads => ?_⟩⟩
  · obtain ⟨datasets, hdatasets, h⟩ := ok_of_bind h
    cases h
    exact datasetLimited_complete hdatasets
  · rw [← datasetLimited_refused_iff hreads]
    unfold dataExportDatasetLimited
    cases datasetLimited toRfc3339 st from_ to_ kind maxRows with
    | error e => exact iff_of_true ⟨e, rfl⟩ ⟨e, rfl⟩
    | ok datasets => exact iff_of_false (by rintro ⟨_, ⟨⟩⟩) (by rintro ⟨_, ⟨⟩⟩)

end Llmctl
