import Llmctl.Async.Owned
import Llmctl.Store.Migrate

/-!
# What migrations leave

Processes that migrate one database at a time only add to it. One that succeeds leaves every
table and index of the plan and the column. Whether they can succeed is settled by the schema
that they find: an index over a column that its table lacks stops each of them.
-/

namespace Llmctl.Migration

open Async

/-! ## Schemas -/

structure Extends (schema schema' : Schema) : Prop where
  tables : ∀ t columns, schema.tables t = some columns → ∃ columns', schema'.tables t = some columns' ∧ columns ⊆ columns'
  indexes : schema.indexes ⊆ schema'.indexes

def Present (schema : Schema) : Statement → Prop
  | .createTable table _ => schema.tables table ≠ none
  | .createIndex index _ _ => index ∈ schema.indexes

def HasColumn (schema : Schema) (table column : String) : Prop := ∃ columns, schema.tables table = some columns ∧ column ∈ columns

/-- The index is there, or can be created. -/
def Creatable (dialect : SqlDialect) (schema : Schema) (index table : String) (columns : List String) : Prop :=
  ∀ present, schema.tables table = some present → dialect = .sqlite ∧ index ∈ schema.indexes ∨ columns ⊆ present

def Migratable (dialect : SqlDialect) (schema : Schema) : Prop :=
  ∀ index table columns, .createIndex index table columns ∈ migrationStatements dialect →
    Creatable dialect schema index table columns

/-- What a migration is for. -/
structure Complete (dialect : SqlDialect) (schema : Schema) : Prop where
  present : ∀ statement ∈ migrationStatements dialect, Present schema statement
  column : HasColumn schema "observation_events" "request_id"

section
variable {dialect : SqlDialect} {schema schema' schema'' : Schema} {statement : Statement}

theorem Extends.refl (schema : Schema) : Extends schema schema := ⟨fun _ columns h => ⟨columns, h, List.Subset.refl _⟩, List.Subset.refl _⟩

theorem Extends.trans (h : Extends schema schema') (h' : Extends schema' schema'') : Extends schema schema'' where
  tables t columns ht := by
    obtain ⟨columns', ht', hsub⟩ := h.tables t columns ht
    obtain ⟨columns'', ht'', hsub'⟩ := h'.tables t columns' ht'
    exact ⟨columns'', ht'', List.Subset.trans hsub hsub'⟩
  indexes := List.Subset.trans h.indexes h'.indexes

theorem Present.extends (h : Present schema statement) (hext : Extends schema schema') : Present schema' statement := by
  cases statement with
  | createTable table columns =>
    obtain ⟨present, hpresent⟩ := Option.ne_none_iff_exists'.mp h
    obtain ⟨present', hpresent', -⟩ := hext.tables table present hpresent
    exact Option.ne_none_iff_exists'.mpr ⟨present', hpresent'⟩
  | createIndex index table columns => exact hext.indexes h

theorem HasColumn.extends {table column : String} (h : HasColumn schema table column) (hext : Extends schema schema') :
    HasColumn schema' table column := by
  obtain ⟨columns, ht, hcolumn⟩ := h
  obtain ⟨columns', ht', hsub⟩ := hext.tables table columns ht
  exact ⟨columns', ht', hsub hcolumn⟩

/-- The table gets columns. -/
theorem extends_update {table : String} {columns : List String} (h : ∀ present, schema.tables table = some present → present ⊆ columns) :
    Extends schema { schema with tables := Function.update schema.tables table (some columns) } where
  tables t present ht := by
    by_cases htable : t = table
    · subst htable
      exact ⟨columns, Function.update_self _ _ _, h present ht⟩
    · exact ⟨present, (Function.update_of_ne htable _ _).trans ht, List.Subset.refl _⟩
  indexes := List.Subset.refl _

theorem execute_extends (dialect : SqlDialect) (schema : Schema) (statement : Statement) :
    Extends schema (schema.execute dialect statement).2 := by
  cases statement with
  | createTable table columns =>
    simp only [Schema.execute]
    cases ht : schema.tables table with
    | some present => exact .refl schema
    | none => exact extends_update fun present hpresent => by simp [ht] at hpresent
  | createIndex index table columns =>
    simp only [Schema.execute]
    cases schema.tables table with
    | none => exact .refl schema
    | some present =>
      dsimp only
      split
      · exact .refl schema
      · split
        · exact ⟨fun _ columns ht => ⟨columns, ht, List.Subset.refl _⟩, List.subset_cons_self _ _⟩
        · exact .refl schema

theorem addColumn_extends (dialect : SqlDialect) (schema : Schema) (table column : String) :
    Extends schema (schema.addColumn dialect table column).2 := by
  unfold Schema.addColumn
  cases ht : schema.tables table with
  | none => exact .refl schema
  | some present =>
    dsimp only
    split
    · exact .refl schema
    · refine extends_update fun other hother => ?_
      rw [ht] at hother
      rw [← Option.some.inj hother]
      exact List.subset_append_left _ _

theorem execute_present (h : (schema.execute dialect statement).1 = .ok ()) : Present (schema.execute dialect statement).2 statement := by
  cases statement with
  | createTable table columns =>
    simp only [Schema.execute]
    cases ht : schema.tables table with
    | some present => simp [Present, ht]
    | none => simp [Present]
  | createIndex index table columns =>
    simp only [Schema.execute] at h ⊢
    cases ht : schema.tables table with
    | none =>
      rw [ht] at h
      cases h
    | some present =>
      rw [ht] at h
      dsimp only at h ⊢
      by_cases hindex : dialect = .sqlite ∧ index ∈ schema.indexes
      · rw [if_pos hindex]
        exact hindex.2
      · rw [if_neg hindex] at h ⊢
        by_cases hcolumns : columns.all present.contains = true
        · rw [if_pos hcolumns]
          exact List.mem_cons_self
        · rw [if_neg hcolumns] at h
          cases h

theorem execute_createIndex {index table : String} {columns present : List String} (ht : schema.tables table = some present) :
    (schema.execute dialect (.createIndex index table columns)).1 = .ok () ↔
      dialect = .sqlite ∧ index ∈ schema.indexes ∨ columns ⊆ present := by
  have hall : columns.all present.contains = true ↔ columns ⊆ present := by
    simp [List.all_eq_true, List.subset_def]
  simp only [Schema.execute, ht]
  by_cases hindex : dialect = .sqlite ∧ index ∈ schema.indexes
  · simp [hindex]
  · by_cases hcolumns : columns.all present.contains = true
    · simp [hindex, hcolumns, hall.mp hcolumns]
    · simp [hindex, hcolumns, mt hall.mpr hcolumns]

end

/-! ## The plan -/

/-- Each index comes after its table. -/
def orderedPlan : List String → List Statement → Bool
  | _, [] => true
  | done, .createTable table _ :: rest => orderedPlan (table :: done) rest
  | done, .createIndex _ table _ :: rest => done.contains table && orderedPlan done rest

/-- A plan's index has its columns in the table, and its name to itself. -/
def Fits : Statement → Statement → Bool
  | .createIndex _ table columns, .createTable table' columns' => table != table' || columns.all (columns'.map (·.name)).contains
  | .createIndex index table columns, .createIndex index' table' columns' =>
    index != index' || (table == table' && columns == columns')
  | _, _ => true

theorem migrationStatements_ordered (dialect : SqlDialect) : orderedPlan [] (migrationStatements dialect) = true := by
  cases dialect <;> decide

theorem migrationStatements_fit (dialect : SqlDialect) :
    ∀ s ∈ migrationStatements dialect, ∀ s' ∈ migrationStatements dialect, Fits s s' = true := by
  cases dialect <;> decide +kernel

theorem table_before {done : List String} {before after : List Statement} {index table : String} {columns : List String}
    (h : orderedPlan done (before ++ .createIndex index table columns :: after) = true) :
    table ∈ done ∨ ∃ cs, .createTable table cs ∈ before := by
  induction before generalizing done with
  | nil =>
    simp only [List.nil_append, orderedPlan, Bool.and_eq_true, List.contains_iff_mem] at h
    exact .inl h.1
  | cons s before ih =>
    cases s with
    | createTable t cs =>
      rcases ih h with hmem | ⟨cs', hcs'⟩
      · rcases List.mem_cons.mp hmem with rfl | hmem
        · exact .inr ⟨cs, List.mem_cons_self⟩
        · exact .inl hmem
      · exact .inr ⟨cs', List.mem_cons_of_mem _ hcs'⟩
    | createIndex index' t cs =>
      simp only [List.cons_append, orderedPlan, Bool.and_eq_true] at h
      exact (ih h.2).imp_right fun hbefore => hbefore.imp fun cs' hcs' => List.mem_cons_of_mem _ hcs'

/-! ## What a process knows -/

section
variable (dialect : SqlDialect)

structure Ready (statement : Statement) (l : Progress) : Prop where
  planned : statement ∈ migrationStatements dialect
  table : ∀ index table columns, statement = .createIndex index table columns → ∃ cs, .createTable table cs ∈ l.executed

def AllDone (l : Progress) : Prop := ∀ statement ∈ migrationStatements dialect, statement ∈ l.executed

def Holds : MigrateOp → Progress → Prop
  | .execute statement, l => Ready dialect statement l
  | .tableInfo table, l => table = "observation_events" ∧ AllDone dialect l
  | .addColumn table column, l => table = "observation_events" ∧ column = "request_id" ∧ AllDone dialect l

def Executed : Result Unit → Progress → Prop
  | .ok _, l => AllDone dialect l
  | .error _, l => l.failed = true

def Ends : Result Unit → Progress → Prop
  | .ok _, l => AllDone dialect l ∧ l.column = true
  | .error _, l => l.failed = true

variable {dialect} {ι : Type} {i : ι}

theorem executeAll_always (statements before : List Statement) (l : Progress) (hplan : migrationStatements dialect = before ++ statements)
    (hbefore : ∀ b ∈ before, b ∈ l.executed) :
    Always (migrateWorld dialect ι) i (Holds dialect) (Executed dialect) (executeAll statements) l := by
  induction statements generalizing before l with
  | nil =>
    intro statement hmem
    rw [hplan, List.append_nil] at hmem
    exact hbefore statement hmem
  | cons statement statements ih =>
    have hready : Ready dialect statement l := by
      refine ⟨by simp [hplan], fun index table columns heq => ?_⟩
      subst heq
      rcases table_before (hplan ▸ migrationStatements_ordered dialect) with hmem | ⟨cs, hcs⟩
      · cases hmem
      · exact ⟨cs, hbefore _ hcs⟩
    refine ⟨hready, fun a _ _ => ?_⟩
    cases a with
    | error e => exact rfl
    | ok _ =>
      apply ih (before ++ [statement]) _ (by simp [hplan])
      intro b hb
      rcases List.mem_append.mp hb with hb | hb
      · exact List.mem_cons_of_mem _ (hbefore b hb)
      · rw [List.mem_singleton.mp hb]
        exact List.mem_cons_self

theorem not_benign_noTable : benign "no such table: observation_events" = false := by decide +kernel

/-- The one benign failure is that of a column that is there. -/
theorem hasColumn_of_benign {schema : Schema} {message : String} {column : String}
    (hcan : MigrateOp.can dialect schema (.addColumn "observation_events" column) (.error message) = true) (hbenign : benign message = true) :
    dialect = .sqlite ∧ HasColumn schema "observation_events" column := by
  have hanswer : .error message = (schema.addColumn dialect "observation_events" column).1 := by
    simpa [MigrateOp.can, MigrateOp.fault, hbenign] using hcan
  unfold Schema.addColumn at hanswer
  cases ht : schema.tables "observation_events" with
  | none =>
    rw [ht] at hanswer
    have hmessage : message = "no such table: observation_events" := (Except.error.inj hanswer).trans (by decide +kernel)
    rw [hmessage, not_benign_noTable] at hbenign
    cases hbenign
  | some present =>
    rw [ht] at hanswer
    dsimp only at hanswer
    by_cases hcolumn : column ∈ present
    · rw [if_pos hcolumn] at hanswer
      cases dialect with
      | sqlite => exact ⟨rfl, present, ht, hcolumn⟩
      | postgres => cases hanswer
    · rw [if_neg hcolumn] at hanswer
      cases hanswer

theorem alterTable_always {l : Progress} (h : AllDone dialect l) :
    Always (migrateWorld dialect ι) i (Holds dialect) (Ends dialect) (alterTable "observation_events" "request_id" "TEXT") l := by
  refine ⟨⟨rfl, rfl, h⟩, fun a _ _ => ?_⟩
  cases a with
  | ok _ => exact ⟨h, rfl⟩
  | error message =>
    have hends : ∀ e, Ends dialect (if benign message then .ok () else .error e)
        (if benign message then { l with column := true } else { l with failed := true }) := by
      intro e
      by_cases hbenign : benign message = true
      · rw [if_pos hbenign, if_pos hbenign]
        exact ⟨h, rfl⟩
      · rw [if_neg hbenign, if_neg hbenign]
        exact rfl
    exact hends _

theorem addColumnIfMissing_always {l : Progress} (h : AllDone dialect l) :
    Always (migrateWorld dialect ι) i (Holds dialect) (Ends dialect)
      (addColumnIfMissing dialect "observation_events" "request_id" "TEXT") l := by
  cases dialect with
  | postgres =>
    refine ⟨⟨rfl, rfl, h⟩, fun a schema hcan => ?_⟩
    cases a with
    | ok _ => exact ⟨h, rfl⟩
    | error message =>
      by_cases hbenign : benign message = true
      · cases (hasColumn_of_benign hcan hbenign).1
      · simp [Ends, migrateWorld, MigrateOp.loc, hbenign]
  | sqlite =>
    refine ⟨⟨rfl, h⟩, fun a _ _ => ?_⟩
    cases a with
    | error e => exact rfl
    | ok names =>
      dsimp only [Prog.bind]
      by_cases hmem : "request_id" ∈ names
      · rw [if_pos hmem]
        exact ⟨h, decide_eq_true hmem⟩
      · rw [if_neg hmem]
        exact alterTable_always h

theorem migrate_always : Always (migrateWorld dialect ι) i (Holds dialect) (Ends dialect) (migrate dialect) {} := by
  apply Always.seq (executeAll_always _ [] {} rfl fun b hb => absurd hb List.not_mem_nil)
  intro r l hr
  cases r with
  | error e => exact hr
  | ok _ => exact addColumnIfMissing_always hr

end

/-! ## What is there -/

section
variable {dialect : SqlDialect} {ι : Type} [DecidableEq ι] {i : ι} {schema₀ schema schema' : Schema} {loc : ι → Progress} {l : Progress}

theorem sh_extends (o : MigrateOp) (a : MigrateSig.Ans o) : Extends schema (o.sh dialect a schema) := by
  cases o with
  | execute statement =>
    cases a with
    | ok _ => exact execute_extends dialect schema statement
    | error e => exact .refl schema
  | tableInfo table => exact .refl schema
  | addColumn table column =>
    cases a with
    | ok _ => exact addColumn_extends dialect schema table column
    | error e => exact .refl schema

/-- What was done is there. -/
structure Truthful (schema₀ : Schema) (loc : ι → Progress) (schema : Schema) : Prop where
  grown : Extends schema₀ schema
  present : ∀ i, ∀ statement ∈ (loc i).executed, Present schema statement
  column : ∀ i, (loc i).column = true → HasColumn schema "observation_events" "request_id"

theorem Truthful.update (h : Truthful schema₀ loc schema) (hext : Extends schema schema')
    (hpresent : ∀ statement ∈ l.executed, statement ∈ (loc i).executed ∨ Present schema' statement)
    (hcolumn : l.column = true → (loc i).column = true ∨ HasColumn schema' "observation_events" "request_id") :
    Truthful schema₀ (Function.update loc i l) schema' where
  grown := h.grown.trans hext
  present j statement hmem := by
    by_cases hj : j = i
    · subst hj
      rw [Function.update_self] at hmem
      rcases hpresent statement hmem with hmem | hpresent
      · exact (h.present j statement hmem).extends hext
      · exact hpresent
    · rw [Function.update_of_ne hj] at hmem
      exact (h.present j statement hmem).extends hext
  column j hj := by
    by_cases hji : j = i
    · subst hji
      rw [Function.update_self] at hj
      rcases hcolumn hj with hcolumn | hcolumn
      · exact (h.column j hcolumn).extends hext
      · exact hcolumn
    · rw [Function.update_of_ne hji] at hj
      exact (h.column j hj).extends hext

theorem addColumn_hasColumn {table column : String} (h : (schema.addColumn dialect table column).1 = .ok ()) :
    HasColumn (schema.addColumn dialect table column).2 table column := by
  unfold Schema.addColumn at h ⊢
  cases ht : schema.tables table with
  | none =>
    rw [ht] at h
    cases h
  | some present =>
    dsimp only
    by_cases hcolumn : column ∈ present
    · rw [if_pos hcolumn]
      exact ⟨present, ht, hcolumn⟩
    · rw [if_neg hcolumn]
      exact ⟨_, Function.update_self _ _ _, List.mem_append_right _ (List.mem_singleton.mpr rfl)⟩

theorem truthful_answer (h : Truthful schema₀ loc schema) {o : MigrateOp} {a : MigrateSig.Ans o} (hΦ : Holds dialect o (loc i))
    (hcan : o.can dialect schema a = true) : Truthful schema₀ (Function.update loc i (o.loc a (loc i))) (o.sh dialect a schema) := by
  cases o with
  | execute statement =>
    cases a with
    | error e => exact h.update (.refl schema) (fun _ hmem => .inl hmem) .inl
    | ok _ =>
      have hok : .ok () = (schema.execute dialect statement).1 := by
        simpa [MigrateOp.can, MigrateOp.fault] using hcan
      refine h.update (execute_extends dialect schema statement) (fun other hmem => ?_) .inl
      rcases List.mem_cons.mp hmem with rfl | hmem
      · exact .inr (execute_present hok.symm)
      · exact .inl hmem
  | tableInfo table =>
    cases a with
    | error e => exact h.update (.refl schema) (fun _ hmem => .inl hmem) .inl
    | ok names =>
      refine h.update (.refl schema) (fun _ hmem => .inl hmem) fun hcolumn => .inr ?_
      have hnames : names = (schema.tables table).getD [] := by
        simpa [MigrateOp.can, MigrateOp.fault] using hcan
      have hmem : "request_id" ∈ (schema.tables table).getD [] := hnames ▸ of_decide_eq_true hcolumn
      cases ht : schema.tables table with
      | none => simp [ht] at hmem
      | some present =>
        rw [hΦ.1] at ht
        rw [hΦ.1, ht] at hmem
        exact ⟨present, ht, hmem⟩
  | addColumn table column =>
    obtain ⟨rfl, rfl, -⟩ := hΦ
    cases a with
    | ok _ =>
      have hok : .ok () = (schema.addColumn dialect "observation_events" "request_id").1 := by
        simpa [MigrateOp.can, MigrateOp.fault] using hcan
      exact h.update (addColumn_extends dialect schema _ _) (fun _ hmem => .inl hmem) fun _ => .inr (addColumn_hasColumn hok.symm)
    | error message =>
      simp only [MigrateOp.loc, MigrateOp.sh]
      by_cases hbenign : benign message = true
      · rw [if_pos hbenign]
        exact h.update (.refl schema) (fun _ hmem => .inl hmem) fun _ => .inr (hasColumn_of_benign hcan hbenign).2
      · rw [if_neg hbenign]
        exact h.update (.refl schema) (fun _ hmem => .inl hmem) .inl

/-! ## Runs without other failures -/

/-- Every index can be created, and nothing failed. -/
structure Unfailing (dialect : SqlDialect) (schema₀ : Schema) (loc : ι → Progress) (schema : Schema) : Prop where
  truthful : Truthful schema₀ loc schema
  migratable : Migratable dialect schema
  failed : ∀ i, (loc i).failed = false

theorem migratable_execute (h : Migratable dialect schema) {statement : Statement} (hplanned : statement ∈ migrationStatements dialect) :
    Migratable dialect (schema.execute dialect statement).2 := by
  intro index table columns hmem present hpresent
  cases ht : schema.tables table with
  | some before =>
    obtain ⟨after, hafter, hsub⟩ := (execute_extends dialect schema statement).tables table before ht
    rw [hpresent] at hafter
    cases hafter
    exact (h index table columns hmem before ht).imp (fun hindex => ⟨hindex.1, (execute_extends dialect schema statement).indexes hindex.2⟩)
      fun hcolumns => List.Subset.trans hcolumns hsub
  | none =>
    -- the table is new
    cases statement with
    | createIndex index' table' columns' =>
      have htables : (schema.execute dialect (.createIndex index' table' columns')).2.tables = schema.tables := by
        simp only [Schema.execute]
        split
        · rfl
        · split
          · rfl
          · split <;> rfl
      rw [htables, ht] at hpresent
      cases hpresent
    | createTable table' columns' =>
      simp only [Schema.execute] at hpresent
      cases ht' : schema.tables table' with
      | some _ =>
        rw [ht', ht] at hpresent
        cases hpresent
      | none =>
        rw [ht'] at hpresent
        by_cases htable : table = table'
        · subst htable
          simp only [Function.update_self, Option.some.injEq] at hpresent
          have hfits := migrationStatements_fit dialect _ hmem _ hplanned
          refine .inr fun column hcolumn => ?_
          simp only [Fits, bne_self_eq_false, Bool.false_or, List.all_eq_true, List.contains_iff_mem] at hfits
          exact hpresent ▸ hfits column hcolumn
        · simp only [Function.update_of_ne htable, ht] at hpresent
          cases hpresent

theorem migratable_addColumn (h : Migratable dialect schema) (table column : String) :
    Migratable dialect (schema.addColumn dialect table column).2 := by
  intro index table' columns hmem present hpresent
  have hext := addColumn_extends dialect schema table column
  cases ht : schema.tables table' with
  | some before =>
    obtain ⟨after, hafter, hsub⟩ := hext.tables table' before ht
    rw [hpresent] at hafter
    cases hafter
    exact (h index table' columns hmem before ht).imp (fun hindex => ⟨hindex.1, hext.indexes hindex.2⟩) fun hcolumns => List.Subset.trans hcolumns hsub
  | none =>
    have hnone : (schema.addColumn dialect table column).2.tables table' = none := by
      unfold Schema.addColumn
      cases ht' : schema.tables table with
      | none => exact ht
      | some before =>
        have hne : table' ≠ table := fun heq => by rw [heq, ht'] at ht; cases ht
        dsimp only
        split
        · exact ht
        · exact (Function.update_of_ne hne _ _).trans ht
    rw [hnone] at hpresent
    cases hpresent

theorem execute_ok (h : Migratable dialect schema) {statement : Statement} (hready : Ready dialect statement l)
    (hpresent : ∀ s ∈ l.executed, Present schema s) : (schema.execute dialect statement).1 = .ok () := by
  cases statement with
  | createTable table columns =>
    simp only [Schema.execute]
    cases schema.tables table <;> rfl
  | createIndex index table columns =>
    obtain ⟨cs, hcs⟩ := hready.table index table columns rfl
    obtain ⟨present, ht⟩ := Option.ne_none_iff_exists'.mp (hpresent _ hcs)
    exact (execute_createIndex ht).mpr (h index table columns hready.planned present ht)

theorem benign_duplicateColumn : benign (Schema.duplicateColumn ++ "request_id") = true := by decide +kernel

theorem unfailing_answer (h : Unfailing dialect schema₀ loc schema) {o : MigrateOp} (hΦ : Holds dialect o (loc i))
    (hcan : o.can dialect schema (o.answer dialect schema) = true) :
    Unfailing dialect schema₀ (Function.update loc i (o.loc (o.answer dialect schema) (loc i)))
      (o.sh dialect (o.answer dialect schema) schema) := by
  refine ⟨truthful_answer h.truthful hΦ hcan, ?_, fun j => ?_⟩
  · cases o with
    | execute statement =>
      have hok := execute_ok h.migratable hΦ (h.truthful.present i)
      simp only [MigrateOp.answer, hok, MigrateOp.sh]
      exact migratable_execute h.migratable hΦ.planned
    | tableInfo table => exact h.migratable
    | addColumn table column =>
      cases hanswer : MigrateOp.answer dialect schema (.addColumn table column) with
      | ok _ => exact migratable_addColumn h.migratable table column
      | error message => exact h.migratable
  · refine forall_update (P := fun l : Progress => l.failed = false) ?_ h.failed j
    cases o with
    | execute statement =>
      simp only [MigrateOp.answer, execute_ok h.migratable hΦ (h.truthful.present i), MigrateOp.loc]
      exact h.failed i
    | tableInfo table => exact h.failed i
    | addColumn table column =>
      obtain ⟨rfl, rfl, hdone⟩ := hΦ
      have hexists := h.truthful.present i _ (hdone (observationTable dialect) (by cases dialect <;> decide))
      obtain ⟨present, ht⟩ := Option.ne_none_iff_exists'.mp hexists
      simp only [MigrateOp.answer, Schema.addColumn, ht]
      by_cases hcolumn : "request_id" ∈ present
      · cases dialect with
        | sqlite => simpa [hcolumn, MigrateOp.loc, benign_duplicateColumn] using h.failed i
        | postgres => simpa [hcolumn, MigrateOp.loc] using h.failed i
      · simpa [hcolumn, MigrateOp.loc] using h.failed i

/-! ## Indexes that stop every run -/

/-- An index of the plan that cannot be created, and that nobody got past. -/
structure Blocked (dialect : SqlDialect) (index table : String) (columns : List String) (loc : ι → Progress) (schema : Schema) :
    Prop where
  blocked : ¬Creatable dialect schema index table columns
  undone : ∀ i, .createIndex index table columns ∉ (loc i).executed

theorem execute_tables_of_some {t : String} {columns : List String} (ht : schema.tables t = some columns) (statement : Statement) :
    (schema.execute dialect statement).2.tables t = some columns := by
  cases statement with
  | createTable table columns' =>
    simp only [Schema.execute]
    cases ht' : schema.tables table with
    | some _ => exact ht
    | none =>
      have hne : t ≠ table := fun heq => by simp [heq, ht'] at ht
      exact (Function.update_of_ne hne _ _).trans ht
  | createIndex index table columns' =>
    simp only [Schema.execute]
    cases schema.tables table with
    | none => exact ht
    | some present =>
      dsimp only
      split
      · exact ht
      · split <;> exact ht

/-- The one index that a statement adds is its own, over columns of its table. -/
theorem mem_execute_indexes {index : String} (h : index ∈ (schema.execute dialect statement).2.indexes) :
    index ∈ schema.indexes ∨ ∃ table columns present, statement = .createIndex index table columns ∧
      schema.tables table = some present ∧ columns ⊆ present := by
  cases statement with
  | createTable table columns =>
    simp only [Schema.execute] at h
    cases ht : schema.tables table <;> exact .inl (by simpa [ht] using h)
  | createIndex index' table columns =>
    simp only [Schema.execute] at h
    cases ht : schema.tables table with
    | none => exact .inl (by simpa [ht] using h)
    | some present =>
      simp only [ht] at h
      by_cases hindex : dialect = .sqlite ∧ index' ∈ schema.indexes
      · exact .inl (by simpa [hindex] using h)
      · by_cases hcolumns : columns.all present.contains = true
        · simp only [if_neg hindex, if_pos hcolumns, List.mem_cons] at h
          cases h with
          | inl heq => exact .inr ⟨table, columns, present, by rw [heq], ht, fun column => by simpa using List.all_eq_true.mp hcolumns column⟩
          | inr hmem => exact .inl hmem
        · exact .inl (by simpa [hindex, hcolumns] using h)

/-- The index of a planned name is the planned one. -/
theorem planned_unique {index table table' : String} {columns columns' : List String}
    (h : .createIndex index table columns ∈ migrationStatements dialect)
    (h' : .createIndex index table' columns' ∈ migrationStatements dialect) : table = table' ∧ columns = columns' := by
  simpa [Fits] using migrationStatements_fit dialect _ h _ h'

theorem blocked_execute {index table : String} {columns : List String}
    (hindex : .createIndex index table columns ∈ migrationStatements dialect) (h : ¬Creatable dialect schema index table columns)
    (hplanned : statement ∈ migrationStatements dialect) :
    ¬Creatable dialect (schema.execute dialect statement).2 index table columns := by
  unfold Creatable at h ⊢
  push Not at h ⊢
  obtain ⟨present, ht, hnone, hcolumns⟩ := h
  refine ⟨present, execute_tables_of_some ht statement, fun hsqlite hmem => ?_, hcolumns⟩
  cases mem_execute_indexes hmem with
  | inl hmem => exact hnone hsqlite hmem
  | inr hown =>
    obtain ⟨table', columns', present', rfl, ht', hsub⟩ := hown
    obtain ⟨rfl, rfl⟩ := planned_unique hindex hplanned
    rw [ht] at ht'
    exact hcolumns (Option.some.inj ht' ▸ hsub)

theorem blocked_answer {index table : String} {columns : List String}
    (hindex : .createIndex index table columns ∈ migrationStatements dialect) (h : Blocked dialect index table columns loc schema)
    {o : MigrateOp} {a : MigrateSig.Ans o} (hΦ : Holds dialect o (loc i)) (hcan : o.can dialect schema a = true) :
    Blocked dialect index table columns (Function.update loc i (o.loc a (loc i))) (o.sh dialect a schema) := by
  have hkeeps : ∀ l : Progress, l.executed = (loc i).executed →
      ∀ j, .createIndex index table columns ∉ (Function.update loc i l j).executed := fun l hl =>
    forall_update (P := fun l : Progress => .createIndex index table columns ∉ l.executed) (by simpa [hl] using h.undone i) h.undone
  cases o with
  | execute statement =>
    cases a with
    | error e => exact ⟨h.blocked, hkeeps _ rfl⟩
    | ok _ =>
      have hok : .ok () = (schema.execute dialect statement).1 := by
        simpa [MigrateOp.can, MigrateOp.fault] using hcan
      refine ⟨blocked_execute hindex h.blocked hΦ.planned, ?_⟩
      apply forall_update (P := fun l : Progress => .createIndex index table columns ∉ l.executed) _ h.undone
      intro hmem
      cases List.mem_cons.mp hmem with
      | inl heq =>
        subst heq
        exact h.blocked fun present ht => (execute_createIndex ht).mp hok.symm
      | inr hmem => exact h.undone i hmem
  | tableInfo table' =>
    cases a with
    | error e => exact ⟨h.blocked, hkeeps _ rfl⟩
    | ok names => exact ⟨h.blocked, hkeeps _ rfl⟩
  | addColumn table' column => exact absurd (hΦ.2.2 _ hindex) (h.undone i)

/-! ## Every run -/

section
variable {ok : Conf MigrateSig (Result Unit) ι Progress Schema → Label MigrateSig ι Empty → Prop}
  {c : Conf MigrateSig (Result Unit) ι Progress Schema}

/-- Each operation does what the schema makes of it. -/
def Faultless (dialect : SqlDialect) (c : Conf MigrateSig (Result Unit) ι Progress Schema) : Label MigrateSig ι Empty → Prop
  | .answer _ o a => a = o.answer dialect c.sh
  | .drop _ | .env _ => True

omit [DecidableEq ι] in
theorem migrateStart_typed (schema : Schema) :
    Typed (migrateWorld dialect ι) (fun _ => Holds dialect) (fun _ => Ends dialect) (migrateStart dialect ι schema) := by
  intro i p hp
  rw [← Option.some.inj hp]
  exact migrate_always

omit [DecidableEq ι] in
theorem truthful_start (schema : Schema) : Truthful schema (migrateStart dialect ι schema).loc schema where
  grown := .refl schema
  present _ _ hmem := absurd hmem List.not_mem_nil
  column _ hi := absurd hi Bool.false_ne_true

theorem truthful_reach (hr : Reach (migrateWorld dialect ι) ok (migrateStart dialect ι schema) c) : Truthful schema c.loc c.sh := by
  apply (migrateStart_typed schema).pool (J := Truthful schema) _ _ _ _ hr
  · exact truthful_start schema
  · exact fun c i o a h hΦ _ hcan => truthful_answer h hΦ hcan
  · intro c i o h _ _ _
    simpa [migrateWorld] using h
  · exact fun _ e => e.elim

theorem ends_of_result (hr : Reach (migrateWorld dialect ι) ok (migrateStart dialect ι schema) c) {r : Result Unit}
    (hresult : c.result i = some r) : Ends dialect r (c.loc i) :=
  (migrateStart_typed schema).reach hr i _ (Conf.prog_of_result hresult)

theorem migratable_of_done (hr : Reach (migrateWorld dialect ι) ok (migrateStart dialect ι schema) c) (hdone : AllDone dialect (c.loc i)) :
    Migratable dialect schema := by
  intro index table columns hindex
  by_contra hblocked
  have h : Blocked dialect index table columns c.loc c.sh := by
    apply (migrateStart_typed schema).pool (J := Blocked dialect index table columns) _ _ _ _ hr
    · exact ⟨hblocked, fun i => List.not_mem_nil⟩
    · exact fun c i o a h hΦ _ hcan => blocked_answer hindex h hΦ hcan
    · intro c i o h _ _ _
      simpa [migrateWorld] using h
    · exact fun _ e => e.elim
  exact h.undone i (hdone _ hindex)

theorem not_failed (hok : ∀ c l, ok c l → Faultless dialect c l) (h : Migratable dialect schema)
    (hr : Reach (migrateWorld dialect ι) ok (migrateStart dialect ι schema) c) : (c.loc i).failed = false := by
  have key : Unfailing dialect schema c.loc c.sh := by
    apply (migrateStart_typed schema).pool (J := Unfailing dialect schema) _ _ _ _ hr
    · exact ⟨truthful_start schema, h, fun i => rfl⟩
    · intro c i o a h hΦ hlabel hcan
      have ha : a = o.answer dialect c.sh := hok c _ hlabel
      subst ha
      exact unfailing_answer h hΦ hcan
    · intro c i o h _ _ _
      simpa [migrateWorld] using h
    · exact fun _ e => e.elim
  exact key.failed i

/-- Migrations add to the schema alone. One that succeeds leaves all of the plan, and found a
schema on which each index can be created; without other failures none fails on such a schema. -/
theorem migrate_settled (schema : Schema) (hr : Reach (migrateWorld dialect ι) ok (migrateStart dialect ι schema) c) :
    Extends schema c.sh ∧
    (∀ i, c.result i = some (.ok ()) → Migratable dialect schema ∧ Complete dialect c.sh) ∧
    ((∀ c l, ok c l → Faultless dialect c l) → ∀ i r, c.result i = some r → (r = .ok () ↔ Migratable dialect schema)) := by
  have htruth := truthful_reach hr
  have hsucceeded : ∀ i, c.result i = some (.ok ()) → Migratable dialect schema ∧ Complete dialect c.sh := by
    intro i hresult
    obtain ⟨hdone, hcolumn⟩ := ends_of_result hr hresult
    exact ⟨migratable_of_done hr hdone, fun statement hmem => htruth.present i statement (hdone statement hmem), htruth.column i hcolumn⟩
  refine ⟨htruth.grown, hsucceeded, fun hok i r hresult => ⟨fun hr => (hsucceeded i (hr ▸ hresult)).1, fun hmigratable => ?_⟩⟩
  cases r with
  | ok _ => rfl
  | error e =>
    have hfailed := ends_of_result hr hresult
    simp [Ends, not_failed hok hmigratable hr] at hfailed

instance : ∀ l, Decidable (Faultless dialect c l)
  | .answer _ (.execute statement) a => inferInstanceAs (Decidable (a = MigrateOp.answer dialect c.sh (.execute statement)))
  | .answer _ (.tableInfo table) a => inferInstanceAs (Decidable (a = MigrateOp.answer dialect c.sh (.tableInfo table)))
  | .answer _ (.addColumn table column) a => inferInstanceAs (Decidable (a = MigrateOp.answer dialect c.sh (.addColumn table column)))
  | .drop _ | .env _ => inferInstanceAs (Decidable True)

def answered (dialect : SqlDialect) (i : ι) : Choice MigrateSig ι Schema Empty :=
  .answer i fun o schema => some (o.answer dialect schema)

def noTables : Schema := ⟨fun _ => none, []⟩

theorem migrate_settled_two : ∃ c, Reach (migrateWorld .sqlite Bool) (Faultless .sqlite) (migrateStart .sqlite Bool noTables) c ∧
    c.result false = some (.ok ()) ∧ c.result true = some (.ok ()) ∧ Complete .sqlite c.sh := by
  have hrun : ∃ c, Reach (migrateWorld .sqlite Bool) (Faultless .sqlite) (migrateStart .sqlite Bool noTables) c ∧
      c.result false = some (.ok ()) ∧ c.result true = some (.ok ()) := by
    refine Conf.exists_reach (List.replicate 23 [answered .sqlite false, answered .sqlite true]).flatten ?_
    decide +kernel
  obtain ⟨c, hr, hfirst, hsecond⟩ := hrun
  exact ⟨c, hr, hfirst, hsecond, ((migrate_settled noTables hr).2.1 false hfirst).2⟩

/-! ## Tables that were there -/

/-- A database has no index over columns that are not there. -/
def Indexed (dialect : SqlDialect) (schema : Schema) : Prop :=
  ∀ index table columns, .createIndex index table columns ∈ migrationStatements dialect → index ∈ schema.indexes →
    ∃ present, schema.tables table = some present ∧ columns ⊆ present

structure Unaltered (dialect : SqlDialect) (schema₀ : Schema) (loc : ι → Progress) (schema : Schema) : Prop where
  truthful : Truthful schema₀ loc schema
  indexed : Indexed dialect schema
  tables : ∀ table columns, schema₀.tables table = some columns → schema.tables table = some columns

theorem indexed_execute (h : Indexed dialect schema) (hplanned : statement ∈ migrationStatements dialect) :
    Indexed dialect (schema.execute dialect statement).2 := by
  intro index table columns hindex hmem
  cases mem_execute_indexes hmem with
  | inl hmem =>
    obtain ⟨present, ht, hsub⟩ := h index table columns hindex hmem
    exact ⟨present, execute_tables_of_some ht statement, hsub⟩
  | inr hown =>
    obtain ⟨table', columns', present, rfl, ht, hsub⟩ := hown
    obtain ⟨rfl, rfl⟩ := planned_unique hindex hplanned
    exact ⟨present, execute_tables_of_some ht _, hsub⟩

omit [DecidableEq ι] in
/-- The plan has an index over the column, so that the column is there once the plan is done. -/
theorem addColumn_done (h : Unaltered dialect schema₀ loc schema) (hdone : AllDone dialect (loc i)) :
    (schema.addColumn dialect "observation_events" "request_id").2 = schema := by
  have hplanned : .createIndex "idx_observation_events_request_id" "observation_events" ["request_id"] ∈ migrationStatements dialect := by
    cases dialect <;> decide
  obtain ⟨present, ht, hsub⟩ := h.indexed _ _ _ hplanned (h.truthful.present i _ (hdone _ hplanned))
  simp [Schema.addColumn, ht, hsub List.mem_cons_self]

theorem unaltered_answer (h : Unaltered dialect schema₀ loc schema) {o : MigrateOp} {a : MigrateSig.Ans o} (hΦ : Holds dialect o (loc i))
    (hcan : o.can dialect schema a = true) :
    Unaltered dialect schema₀ (Function.update loc i (o.loc a (loc i))) (o.sh dialect a schema) := by
  refine ⟨truthful_answer h.truthful hΦ hcan, ?_, ?_⟩
  · cases o with
    | execute statement =>
      cases a with
      | ok _ => exact indexed_execute h.indexed hΦ.planned
      | error e => exact h.indexed
    | tableInfo table => exact h.indexed
    | addColumn table column =>
      obtain ⟨rfl, rfl, hdone⟩ := hΦ
      cases a with
      | ok _ => simpa only [MigrateOp.sh, addColumn_done h hdone] using h.indexed
      | error e => exact h.indexed
  · intro table columns ht
    have hnow := h.tables table columns ht
    cases o with
    | execute statement =>
      cases a with
      | ok _ => exact execute_tables_of_some hnow statement
      | error e => exact hnow
    | tableInfo table => exact hnow
    | addColumn table column =>
      obtain ⟨rfl, rfl, hdone⟩ := hΦ
      cases a with
      | ok _ => simpa only [MigrateOp.sh, addColumn_done h hdone] using hnow
      | error e => exact hnow

/-- A migration never gives a table that it finds another column, `observation_events` included. -/
theorem tables_unaltered (schema : Schema) (hindexed : Indexed dialect schema)
    (hr : Reach (migrateWorld dialect ι) ok (migrateStart dialect ι schema) c) (table : String) (columns : List String)
    (ht : schema.tables table = some columns) : c.sh.tables table = some columns := by
  have key : Unaltered dialect schema c.loc c.sh := by
    apply (migrateStart_typed schema).pool (J := Unaltered dialect schema) _ _ _ _ hr
    · exact ⟨truthful_start schema, hindexed, fun _ _ ht => ht⟩
    · exact fun c i o a h hΦ _ hcan => unaltered_answer h hΦ hcan
    · intro c i o h _ _ _
      simpa [migrateWorld] using h
    · exact fun _ e => e.elim
  exact key.tables table columns ht

def legacyColumns : List String := ["id", "at", "kind", "model", "source", "value", "unit", "attributes_json"]

/-- The table of before request ids. -/
def legacy : Schema := ⟨fun table => if table = "observation_events" then some legacyColumns else none, []⟩

theorem tables_unaltered_legacy : ∃ c, Reach (migrateWorld .sqlite Bool) (Faultless .sqlite) (migrateStart .sqlite Bool legacy) c ∧
    c.result true = some (.error "no such column in observation_events") ∧
    c.sh.tables "observation_events" = some legacyColumns := by
  have hrun : ∃ c, Reach (migrateWorld .sqlite Bool) (Faultless .sqlite) (migrateStart .sqlite Bool legacy) c ∧
      c.result true = some (.error "no such column in observation_events") := by
    refine Conf.exists_reach (List.replicate 11 (answered .sqlite true)) ?_
    decide +kernel
  obtain ⟨c, hr, hresult⟩ := hrun
  exact ⟨c, hr, hresult, tables_unaltered legacy (fun _ _ _ _ hmem => absurd hmem List.not_mem_nil) hr _ _ rfl⟩

end

end

end Llmctl.Migration
