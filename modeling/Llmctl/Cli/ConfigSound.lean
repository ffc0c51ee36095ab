import Llmctl.Cli.Config
import Mathlib.Data.Fintype.Basic

/-!
# Configuration changes of concurrent commands

Every save is atomic, but it writes a configuration computed from the copy its
command loaded. Commands that save in each other's window lose changes, a
revoked key among them; commands that do not leave the file as if they had run
one after the other.
-/

namespace Llmctl.Cli

open Async

/-! ## Lists of entries with keys -/

section
variable {α κ : Type} [DecidableEq κ] (key : α → κ)

theorem map_upsertBy (entry : α) (xs : List α) : (upsertBy key entry xs).map key =
    if key entry ∈ xs.map key then xs.map key else xs.map key ++ [key entry] := by
  induction xs with
  | nil => rfl
  | cons x xs ih =>
    by_cases hx : key x = key entry
    · simp [upsertBy, hx]
    · have hne : ¬ key entry = key x := fun e => hx e.symm
      simp only [upsertBy, hx, if_false, List.map_cons, ih, List.mem_cons, hne, false_or]
      split <;> rfl

omit [DecidableEq κ] in
theorem map_modifyFirst (p : α → Bool) {f : α → α} (hf : ∀ x, key (f x) = key x) (xs : List α) :
    (modifyFirst p f xs).map key = xs.map key := by
  induction xs with
  | nil => rfl
  | cons x xs ih =>
    rw [modifyFirst]
    split
    · rw [List.map_cons, hf, List.map_cons]
    · rw [List.map_cons, ih, List.map_cons]

theorem mem_modifyFirst {p : α → Bool} {f : α → α} {xs : List α} {x : α} (h : x ∈ modifyFirst p f xs) :
    x ∈ xs ∨ ∃ y, xs.find? p = some y ∧ x = f y := by
  induction xs with
  | nil => cases h
  | cons y ys ih =>
    rw [modifyFirst] at h
    by_cases hy : p y = true
    · rw [if_pos hy] at h
      rcases List.mem_cons.mp h with rfl | hmem
      · exact .inr ⟨y, List.find?_cons_of_pos hy, rfl⟩
      · exact .inl (List.mem_cons_of_mem _ hmem)
    · rw [if_neg hy] at h
      rcases List.mem_cons.mp h with rfl | hmem
      · exact .inl List.mem_cons_self
      · rcases ih hmem with hmem | ⟨z, hz, rfl⟩
        · exact .inl (List.mem_cons_of_mem _ hmem)
        · exact .inr ⟨z, by rw [List.find?_cons_of_neg hy, hz], rfl⟩

variable {key} in
theorem mem_upsertBy {entry x : α} {xs : List α} (h : x ∈ upsertBy key entry xs) :
    x = entry ∨ x ∈ xs := by
  induction xs with
  | nil => exact .inl (List.mem_singleton.mp h)
  | cons y ys ih =>
    rw [upsertBy] at h
    by_cases hy : key y = key entry
    · rw [if_pos hy] at h
      rcases List.mem_cons.mp h with rfl | hmem
      · exact .inl rfl
      · exact .inr (List.mem_cons_of_mem _ hmem)
    · rw [if_neg hy] at h
      rcases List.mem_cons.mp h with rfl | hmem
      · exact .inr List.mem_cons_self
      · exact (ih hmem).imp_right (List.mem_cons_of_mem _)

theorem not_mem_eraseP {xs : List α} (h : (xs.map key).Nodup) (k : κ) :
    k ∉ (xs.eraseP fun x => key x == k).map key := by
  induction xs with
  | nil => simp
  | cons x xs ih =>
    rw [List.map_cons, List.nodup_cons] at h
    by_cases hx : key x = k
    · rw [List.eraseP_cons_of_pos (by simpa using hx)]
      rw [← hx]
      exact h.1
    · rw [List.eraseP_cons_of_neg (by simpa using hx), List.map_cons, List.mem_cons, not_or]
      exact ⟨fun e => hx e.symm, ih h.2⟩

end

/-! ## What a command changes -/

def Config.keyIds (cfg : Config) : List String := cfg.apiKeys.map (·.id)

/-- The command was itself given the key `id` to put into the file. -/
def Command.Gives (id : String) : Command → Prop
  | .addKey args => args.id = id
  | .rotateKey args => args.newId = some id
  | _ => False

/-- What a command does to the key ids of a file. -/
inductive KeyChange (ids : List String) : Command → List String → Prop where
  | keep {command : Command} (hkeep : ∀ id, command ≠ .revokeKey id) : KeyChange ids command ids
  | give {command : Command} (id : String) (hgives : command.Gives id) (hnew : id ∉ ids) :
      KeyChange ids command (ids ++ [id])
  | erase {id : String} {ids' : List String} (hsub : ids'.Sublist ids) (hgone : ids.Nodup → id ∉ ids') :
      KeyChange ids (.revokeKey id) ids'

section
variable {ids ids' : List String} {command : Command} {id : String}

theorem KeyChange.nodup (h : KeyChange ids command ids') (hnodup : ids.Nodup) : ids'.Nodup := by
  cases h with
  | keep _ => exact hnodup
  | give id _ hnew => exact hnodup.append (List.nodup_singleton _) (by simpa using hnew)
  | erase hsub _ => exact hnodup.sublist hsub

theorem KeyChange.absent (h : KeyChange ids command ids') (hnot : ¬ command.Gives id) (habsent : id ∉ ids) :
    id ∉ ids' := by
  cases h with
  | keep _ => exact habsent
  | give id' hgives _ =>
    rw [List.mem_append, List.mem_singleton, not_or]
    refine ⟨habsent, ?_⟩
    rintro rfl
    exact hnot hgives
  | erase hsub _ => exact fun hmem => habsent (hsub.subset hmem)

theorem KeyChange.gone (h : KeyChange ids (.revokeKey id) ids') (hnodup : ids.Nodup) : id ∉ ids' := by
  cases h with
  | keep hkeep => exact absurd rfl (hkeep id)
  | give id' hgives _ => exact hgives.elim
  | erase _ hgone => exact hgone hnodup

end

section
variable {inputs : Inputs} {cfg cfg' : Config}

theorem addKey_keys {args : SecurityAddKeyArgs} (h : addKey args inputs cfg = .ok (some cfg')) :
    KeyChange cfg.keyIds (.addKey args) cfg'.keyIds := by
  obtain ⟨_, -, h⟩ := ok_of_bind h
  cases h
  have hids : ∀ key : ApiKeyConfig, (upsertApiKey cfg.apiKeys key).map (·.id) =
      if key.id ∈ cfg.keyIds then cfg.keyIds else cfg.keyIds ++ [key.id] :=
    fun key => map_upsertBy ApiKeyConfig.id key cfg.apiKeys
  change KeyChange cfg.keyIds _ ((upsertApiKey cfg.apiKeys _).map (·.id))
  rw [hids]
  split
  · exact .keep fun _ => Command.noConfusion
  · rename_i hnew
    exact .give args.id rfl hnew

theorem rotateKey_keys {args : SecurityRotateKeyArgs} (h : rotateKey args inputs cfg = .ok (some cfg')) :
    KeyChange cfg.keyIds (.rotateKey args) cfg'.keyIds := by
  have hids : ∀ (p : ApiKeyConfig → Bool) (f : ApiKeyConfig → ApiKeyConfig), (∀ key, (f key).id = key.id) →
      (modifyFirst p f cfg.apiKeys).map (·.id) = cfg.keyIds :=
    fun p f hf => map_modifyFirst ApiKeyConfig.id p hf cfg.apiKeys
  obtain ⟨_, -, h⟩ := ok_of_bind h
  obtain ⟨key, -, h⟩ := ok_of_bind h
  cases hn : args.newId with
  | some newId =>
    rw [hn] at h
    obtain ⟨_, -, h⟩ := ok_of_bind h
    split at h
    · cases h
    · rename_i hnew
      cases h
      have hnew : newId ∉ cfg.keyIds := by
        intro hmem
        obtain ⟨key, hkey, hid⟩ := List.mem_map.mp hmem
        exact hnew (List.any_eq_true.mpr ⟨key, hkey, by simpa using hid⟩)
      change KeyChange cfg.keyIds _ ((modifyFirst _ (retireKey inputs.now) cfg.apiKeys ++ [_]).map ApiKeyConfig.id)
      rw [List.map_append, hids _ (retireKey inputs.now) fun _ => rfl]
      exact .give newId hn hnew
  | none =>
    rw [hn] at h
    dsimp only at h
    split at h
    · cases h
      change KeyChange cfg.keyIds _ ((modifyFirst _ (replaceKey args inputs.now) cfg.apiKeys).map (·.id))
      rw [hids _ (replaceKey args inputs.now) fun _ => rfl]
      exact .keep fun _ => Command.noConfusion
    · cases h

theorem revokeKey_keys {id : String} (h : revokeKey id cfg = .ok (some cfg')) :
    KeyChange cfg.keyIds (.revokeKey id) cfg'.keyIds := by
  obtain ⟨_, -, h⟩ := ok_of_bind h
  cases h
  exact .erase ((List.eraseP_sublist).map _) fun hnodup => not_mem_eraseP ApiKeyConfig.id hnodup id

theorem replaceModel_keys {args : ModelReplaceArgs} (h : replaceModel args inputs cfg = .ok (some cfg')) :
    cfg'.keyIds = cfg.keyIds := by
  obtain ⟨previous, -, h⟩ := ok_of_bind h
  dsimp only at h
  split at h
  · cases h
  · obtain ⟨_, -, h⟩ := ok_of_bind h
    obtain ⟨model, -, h⟩ := ok_of_bind h
    cases h
    rfl

theorem compute_keys {command : Command} (h : command.compute inputs cfg = .ok (some cfg')) :
    KeyChange cfg.keyIds command cfg'.keyIds := by
  cases command with
  | install args =>
    obtain ⟨_, -, h⟩ := ok_of_bind h
    obtain ⟨model, -, h⟩ := ok_of_bind h
    cases h
    exact .keep fun _ => Command.noConfusion
  | startModel name weight dryRun =>
    obtain ⟨model, -, h⟩ := ok_of_bind h
    cases dryRun <;> cases h
    exact .keep fun _ => Command.noConfusion
  | stopModel name dryRun =>
    obtain ⟨model, -, h⟩ := ok_of_bind h
    cases dryRun <;> cases h
    exact .keep fun _ => Command.noConfusion
  | replaceModel args =>
    rw [replaceModel_keys h]
    exact .keep fun _ => Command.noConfusion
  | importManifest manifest =>
    obtain ⟨_, -, h⟩ := ok_of_bind h
    obtain ⟨models, -, h⟩ := ok_of_bind h
    cases h
    exact .keep fun _ => Command.noConfusion
  | addKey args => exact addKey_keys h
  | rotateKey args => exact rotateKey_keys h
  | revokeKey id => exact revokeKey_keys h

theorem dryRun_of_none {command : Command} (h : command.compute inputs cfg = .ok none) : command.dryRun = true := by
  cases command with
  | install args =>
    obtain ⟨_, -, h⟩ := ok_of_bind h
    obtain ⟨model, -, h⟩ := ok_of_bind h
    cases h
  | startModel name weight dryRun =>
    obtain ⟨model, -, h⟩ := ok_of_bind h
    cases dryRun <;> cases h
    rfl
  | stopModel name dryRun =>
    obtain ⟨model, -, h⟩ := ok_of_bind h
    cases dryRun <;> cases h
    rfl
  | replaceModel args =>
    obtain ⟨previous, -, h⟩ := ok_of_bind h
    dsimp only at h
    split at h
    · rename_i hdry
      exact hdry
    · obtain ⟨_, -, h⟩ := ok_of_bind h
      obtain ⟨model, -, h⟩ := ok_of_bind h
      cases h
  | importManifest manifest =>
    obtain ⟨_, -, h⟩ := ok_of_bind h
    obtain ⟨models, -, h⟩ := ok_of_bind h
    cases h
  | addKey args =>
    obtain ⟨_, -, h⟩ := ok_of_bind h
    cases h
  | rotateKey args =>
    obtain ⟨_, -, h⟩ := ok_of_bind h
    obtain ⟨key, -, h⟩ := ok_of_bind h
    split at h
    · obtain ⟨_, -, h⟩ := ok_of_bind h
      split at h <;> cases h
    · split at h <;> cases h
  | revokeKey id =>
    obtain ⟨_, -, h⟩ := ok_of_bind h
    cases h

theorem not_dryRun_of_some {command : Command} (h : command.compute inputs cfg = .ok (some cfg')) :
    command.dryRun = false := by
  cases command with
  | startModel name weight dryRun =>
    obtain ⟨model, -, h⟩ := ok_of_bind h
    cases dryRun <;> cases h
    rfl
  | stopModel name dryRun =>
    obtain ⟨model, -, h⟩ := ok_of_bind h
    cases dryRun <;> cases h
    rfl
  | replaceModel args =>
    obtain ⟨previous, -, h⟩ := ok_of_bind h
    dsimp only at h
    split at h
    · cases h
    · rename_i hdry
      exact Bool.eq_false_iff.mpr hdry
  | _ => rfl

end

/-! ## One after the other -/

section
variable {ι : Type} (commands : ι → Command) (inputs : ι → Inputs)

/-- The commands of the list, run alone one after the other, take one file to the other. -/
inductive Serial (cfg : Config) : List ι → Config → Prop where
  | nil : Serial cfg [] cfg
  | snoc {order : List ι} {i : ι} {cfg' cfg'' : Config} (h : Serial cfg order cfg')
      (hi : (commands i).compute (inputs i) cfg' = .ok (some cfg'')) : Serial cfg (order ++ [i]) cfg''

variable {commands inputs}

theorem Serial.nodup {cfg cfg' : Config} {order : List ι} (h : Serial commands inputs cfg order cfg')
    (hnodup : cfg.keyIds.Nodup) : cfg'.keyIds.Nodup := by
  induction h with
  | nil => exact hnodup
  | snoc _ hi ih => exact (compute_keys hi).nodup ih

theorem Serial.append {cfg cfg' : Config} {order : List ι} (h : Serial commands inputs cfg order cfg') :
    ∀ {pre post : List ι}, order = pre ++ post →
      ∃ mid, Serial commands inputs cfg pre mid ∧ Serial commands inputs mid post cfg' := by
  induction h with
  | nil =>
    intro pre post hsplit
    obtain ⟨rfl, rfl⟩ := List.append_eq_nil_iff.mp hsplit.symm
    exact ⟨cfg, .nil, .nil⟩
  | @snoc order i cfg' cfg'' h hi ih =>
    intro pre post hsplit
    obtain rfl | ⟨post, j, rfl⟩ := List.eq_nil_or_concat post
    · rw [List.append_nil] at hsplit
      subst hsplit
      exact ⟨cfg'', h.snoc hi, .nil⟩
    · rw [List.concat_eq_append, ← List.append_assoc] at hsplit
      rw [List.concat_eq_append]
      obtain ⟨hinit, hlast⟩ := List.append_inj' hsplit rfl
      obtain ⟨mid, hpre, hpost⟩ := ih hinit
      cases hlast
      exact ⟨mid, hpre, hpost.snoc hi⟩

theorem Serial.absent {cfg cfg' : Config} {order : List ι} {id : String} (h : Serial commands inputs cfg order cfg')
    (hnot : ∀ j ∈ order, ¬ (commands j).Gives id) (habsent : id ∉ cfg.keyIds) : id ∉ cfg'.keyIds := by
  induction h with
  | nil => exact habsent
  | @snoc order i cfg' cfg'' h hi ih =>
    have hmid := ih fun j hj => hnot j (List.mem_append_left _ hj)
    exact (compute_keys hi).absent (hnot i (by simp)) hmid

/-- A key that a command of the list revokes is gone, unless a later one was given it. -/
theorem Serial.revoked {cfg cfg' : Config} {pre post : List ι} {i : ι} {id : String} (hnodup : cfg.keyIds.Nodup)
    (h : Serial commands inputs cfg (pre ++ i :: post) cfg') (hrevoke : commands i = .revokeKey id)
    (hnot : ∀ j ∈ post, ¬ (commands j).Gives id) : id ∉ cfg'.keyIds := by
  obtain ⟨mid, hpre, hpost⟩ := h.append (show pre ++ i :: post = (pre ++ [i]) ++ post by simp)
  generalize hlist : pre ++ [i] = list at hpre
  cases hpre with
  | nil => simp at hlist
  | snoc h hi =>
    obtain ⟨rfl, hlast⟩ := List.append_inj' hlist rfl
    cases hlast
    have hchange := compute_keys hi
    rw [hrevoke] at hchange
    exact hpost.absent hnot (hchange.gone (h.nodup hnodup))

/-- The file has the effect of every command, as if they had run one after the other,
and keys that were revoked and not given again are gone. -/
def ChangesKept (commands : ι → Command) (inputs : ι → Inputs) (cfg cfg' : Config) : Prop :=
  ∃ order : List ι, order.Nodup ∧ (∀ i, i ∈ order ↔ (commands i).dryRun = false) ∧
    Serial commands inputs cfg order cfg' ∧
    ∀ pre i post id, order = pre ++ i :: post → commands i = .revokeKey id →
      (∀ j ∈ post, ¬ (commands j).Gives id) → id ∉ cfg'.keyIds

end

/-! ## Runs -/

section
variable {ι : Type} [DecidableEq ι] (commands : ι → Command) (inputs : ι → Inputs)

def Holds (i : ι) : CliOp → Copy → Prop
  | .load, l => l = {}
  | .compute cfg, l => l = { loaded := some cfg }
  | .save cfg', l => ∃ cfg, l = { loaded := some cfg } ∧ (commands i).compute (inputs i) cfg = .ok (some cfg')
  | .finish, l => l = { saved := true }

/-- A command that succeeds has saved, or changes nothing. -/
def Succeeds (i : ι) : Result Unit → Copy → Prop
  | .ok _, l => l = { saved := (commands i).dryRun = false }
  | .error _, _ => True

omit [DecidableEq ι] in
theorem configCommand_always (i : ι) :
    Always (configWorld ι commands inputs) i (Holds commands inputs i) (Succeeds commands i) configCommand {} := by
  refine ⟨rfl, fun a _ _ => ?_⟩
  cases a with
  | error e => trivial
  | ok cfg =>
    refine ⟨rfl, fun r _ hcan => ?_⟩
    have hr : r = (commands i).compute (inputs i) cfg := of_decide_eq_true hcan
    cases r with
    | error e => trivial
    | ok new =>
      cases new with
      | none =>
        have hunchanged : Succeeds commands i (.ok ()) {} := by simp [Succeeds, dryRun_of_none hr.symm]
        exact hunchanged
      | some cfg' =>
        refine ⟨⟨cfg, rfl, hr.symm⟩, fun a _ _ => ?_⟩
        cases a with
        | error e => trivial
        | ok _ =>
          refine ⟨rfl, fun a _ _ => ?_⟩
          have hdry := not_dryRun_of_some hr.symm
          cases a with
          | error e => trivial
          | ok _ => simp [Succeeds, configWorld, CliOp.loc, hdry]

variable {commands inputs}

/-- No command saves while another one holds a copy that it may still save. -/
def NoOverlap (c : CliConf ι) : Label CliSig ι Empty → Prop
  | .answer i (.save _) (.ok _) => ∀ j, j ≠ i → (c.loc j).loaded = none
  | _ => True

instance [Fintype ι] (c : CliConf ι) : (l : Label CliSig ι Empty) → Decidable (NoOverlap c l)
  | .answer i (.save _) (.ok _) => inferInstanceAs (Decidable (∀ j, j ≠ i → (c.loc j).loaded = none))
  | .answer _ (.save _) (.error _) | .answer _ .load _ | .answer _ (.compute _) _ | .answer _ .finish _ | .drop _ | .env _ =>
    .isTrue trivial

/-- The copies that may still be saved are the file's content, and the saves so far
ran one after the other. -/
structure InOrder (commands : ι → Command) (inputs : ι → Inputs) (cfg : Config) (loc : ι → Copy) (f : ConfigFile ι) :
    Prop where
  current : ∀ i copy, (loc i).loaded = some copy → copy = f.content
  saved : ∀ i, i ∈ f.saves ↔ (loc i).saved = true
  once : f.saves.Nodup
  changing : ∀ i ∈ f.saves, (commands i).dryRun = false
  serial : Serial commands inputs cfg f.saves f.content

omit [DecidableEq ι] in
theorem inOrder_start (cfg : Config) :
    InOrder commands inputs cfg (configStart ι cfg).loc (configStart ι cfg).sh := by
  refine ⟨fun i copy h => ?_, fun i => ?_, List.nodup_nil, fun i h => ?_, .nil⟩
  · cases h
  · simp [configStart]
  · cases h

theorem InOrder.keep {cfg : Config} {loc : ι → Copy} {f : ConfigFile ι} (h : InOrder commands inputs cfg loc f) {i : ι}
    {l : Copy} (hsaved : l.saved = (loc i).saved) (hloaded : ∀ copy, l.loaded = some copy → copy = f.content) :
    InOrder commands inputs cfg (Function.update loc i l) f := by
  refine ⟨fun j copy hj => ?_, fun j => ?_, h.once, h.changing, h.serial⟩
  · by_cases hji : j = i
    · subst hji
      rw [Function.update_self] at hj
      exact hloaded copy hj
    · rw [Function.update_of_ne hji] at hj
      exact h.current j copy hj
  · by_cases hji : j = i
    · subst hji
      rw [Function.update_self, hsaved, h.saved]
    · rw [Function.update_of_ne hji, h.saved]

theorem InOrder.save {cfg cfg' : Config} {loc : ι → Copy} {f : ConfigFile ι} (h : InOrder commands inputs cfg loc f)
    {i : ι} (halone : ∀ j, j ≠ i → (loc j).loaded = none) (hunsaved : (loc i).saved = false)
    (hcompute : (commands i).compute (inputs i) f.content = .ok (some cfg')) :
    InOrder commands inputs cfg (Function.update loc i { saved := true }) ⟨cfg', f.saves ++ [i]⟩ := by
  have hnew : i ∉ f.saves := by rw [h.saved, hunsaved]; decide
  refine ⟨fun j copy hj => ?_, fun j => ?_, h.once.append (List.nodup_singleton _) (by simpa using hnew), fun j hj => ?_,
    h.serial.snoc hcompute⟩
  · by_cases hji : j = i
    · subst hji
      rw [Function.update_self] at hj
      cases hj
    · rw [Function.update_of_ne hji, halone j hji] at hj
      cases hj
  · by_cases hji : j = i
    · subst hji; simp
    · rw [Function.update_of_ne hji, ← h.saved]
      simp [hji]
  · obtain hj | hj := List.mem_append.mp hj
    · exact h.changing j hj
    · rw [List.mem_singleton.mp hj]
      exact not_dryRun_of_some hcompute

theorem inOrder_answer {cfg : Config} {c : CliConf ι} {i : ι} {o : CliOp} {a : CliSig.Ans o}
    (h : InOrder commands inputs cfg c.loc c.sh) (hΦ : Holds commands inputs i o (c.loc i))
    (hok : NoOverlap c (.answer i o a)) (hcan : o.can commands inputs i c.sh a = true) :
    InOrder commands inputs cfg (Function.update c.loc i (o.loc a (c.loc i))) (o.sh i a c.sh) := by
  cases o with
  | load =>
    cases a with
    | error e => exact h.keep rfl fun copy hcopy => by cases hcopy
    | ok copy =>
      have hread : copy = c.sh.content := by simpa [CliOp.can] using hcan
      refine h.keep rfl fun copy' hcopy => ?_
      cases hcopy
      exact hread
  | compute copy =>
    cases a with
    | error e => exact h.keep rfl fun copy hcopy => by cases hcopy
    | ok new =>
      cases new with
      | none => exact h.keep rfl fun copy hcopy => by cases hcopy
      | some cfg' => exact h.keep rfl (h.current i)
  | save cfg' =>
    cases a with
    | error e => exact h.keep rfl fun copy hcopy => by cases hcopy
    | ok _ =>
      obtain ⟨copy, hl, hcompute⟩ := hΦ
      have hcopy : copy = c.sh.content := h.current i copy (by rw [hl])
      subst hcopy
      exact h.save hok (by rw [hl]) hcompute
  | finish => exact h.keep rfl fun copy hcopy => by cases hcopy

end

/-! ## A revoked key that comes back -/

def stolenKey : ApiKeyConfig where
  id := "stolen"
  sha256 := ""
  subject := "alice"
  team := "platform"
  scopes := []
  createdAt := none
  expiresAt := none
  rotatedAt := none
  owner := none
  purpose := none
  lastFour := none
  fingerprint := none
  status := "active"

def keyAndModel : Config := ⟨[⟨"qwen", "qwen.gguf", "chat", none, 0⟩], [stolenKey], "models"⟩

def noInputs : Inputs := { installModel _ := .error "", importOfflineManifest _ := .error "", now := 0 }

/-- `model start` on the one side, `security revoke-key` on the other. -/
def startAndRevoke : Bool → Command
  | true => .startModel "qwen" none false
  | false => .revokeKey "stolen"

/-- The answers of a file system that never fails. -/
def CliOp.answer (i : Bool) : (o : CliOp) → ConfigFile Bool → Option (CliSig.Ans o)
  | .load, f => some (.ok f.content)
  | .compute cfg, _ => some ((startAndRevoke i).compute noInputs cfg)
  | .save _, _ | .finish, _ => some (.ok ())

def turns (i : Bool) (n : Nat) : List (Choice CliSig Bool (ConfigFile Bool) Empty) :=
  List.replicate n (.answer i (CliOp.answer i))

def succeeded (c : CliConf Bool) (i : Bool) : Bool :=
  match c.prog i with
  | some (.done (.ok _)) => true
  | _ => false

theorem of_succeeded {c : CliConf Bool} {i : Bool} (h : succeeded c i = true) : c.prog i = some (.done (.ok ())) := by
  unfold succeeded at h
  split at h
  · assumption
  · cases h

end Llmctl.Cli
