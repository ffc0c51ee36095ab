import Llmctl.Cli.ConfigSound

/-!
# The model table

The commands that change models save the configuration and then write each of its models to
the table of the storage.
-/

namespace Llmctl.Cli

section
variable {α κ : Type} [DecidableEq κ] {key : α → κ}

theorem nodup_upsertBy {xs : List α} (h : (xs.map key).Nodup) (entry : α) : ((upsertBy key entry xs).map key).Nodup := by
  rw [map_upsertBy]
  split
  · exact h
  · rename_i hnew
    exact h.append (List.nodup_singleton _) (by simpa using hnew)

theorem mem_upsertBy_iff {xs : List α} (h : (xs.map key).Nodup) {entry x : α} :
    x ∈ upsertBy key entry xs ↔ x = entry ∨ x ∈ xs ∧ key x ≠ key entry := by
  induction xs with
  | nil => simp [upsertBy]
  | cons y ys ih =>
    rw [List.map_cons, List.nodup_cons] at h
    rw [upsertBy]
    split
    · rename_i hy
      have hne : x ∈ ys → key x ≠ key entry := fun hx he => h.1 (hy ▸ he ▸ List.mem_map_of_mem hx)
      rw [List.mem_cons, List.mem_cons]
      refine or_congr_right ⟨fun hx => ⟨.inr hx, hne hx⟩, ?_⟩
      rintro ⟨rfl | hx, hkey⟩
      · exact absurd hy hkey
      · exact hx
    · rename_i hy
      rw [List.mem_cons, ih h.2, List.mem_cons]
      constructor
      · rintro (rfl | rfl | ⟨hx, hkey⟩)
        · exact .inr ⟨.inl rfl, hy⟩
        · exact .inl rfl
        · exact .inr ⟨.inr hx, hkey⟩
      · rintro (rfl | ⟨rfl | hx, hkey⟩)
        · exact .inr (.inl rfl)
        · exact .inl rfl
        · exact .inr (.inr ⟨hx, hkey⟩)

end

structure ModelInventoryRecord where
  alias_ : String
  path : String
  role : String
  weight : Nat
  updatedAt : Int
  deriving DecidableEq, Repr

/-- `alias` is the primary key. -/
structure ModelTable where
  rows : List ModelInventoryRecord
  nodup : (rows.map (·.alias_)).Nodup

namespace ModelTable

def upsertModelRecord (table : ModelTable) (record : ModelInventoryRecord) : ModelTable where
  rows := upsertBy (·.alias_) record table.rows
  nodup := nodup_upsertBy table.nodup record

def upsertModel (table : ModelTable) (model : ModelConfig) (now : Int) : ModelTable :=
  table.upsertModelRecord ⟨model.alias_, model.path, model.role, model.weight, now⟩

/-- `now` is the clock at the first write, the second and so on. -/
def persistModels (table : ModelTable) (now : Nat → Int) : List ModelConfig → ModelTable
  | [] => table
  | model :: models => (table.upsertModel model (now 0)).persistModels (fun n => now (n + 1)) models

def listModels (table : ModelTable) : List ModelInventoryRecord :=
  table.rows.insertionSort fun left right => left.alias_ ≤ right.alias_

end ModelTable

structure ModelStores where
  cfg : Config
  table : ModelTable

def Command.changesModels : Command → Bool
  | .install _ | .startModel .. | .stopModel .. | .replaceModel _ | .importManifest _ => true
  | .addKey _ | .rotateKey _ | .revokeKey _ => false

/-- A command whose writes succeed. -/
def Command.run (command : Command) (inputs : Inputs) (now : Nat → Int) (stores : ModelStores) : Result ModelStores := do
  match ← command.compute inputs stores.cfg with
  | none => pure stores
  | some cfg =>
    pure { cfg, table := if command.changesModels then stores.table.persistModels now cfg.models else stores.table }

structure Executed where
  command : Command
  inputs : Inputs
  now : Nat → Int

def runModelCommands : List Executed → ModelStores → Result ModelStores
  | [], stores => .ok stores
  | step :: steps, stores => do runModelCommands steps (← step.command.run step.inputs step.now stores)

end Llmctl.Cli
