import Llmctl.Cli.ConfigSound
import Llmctl.Server.Auth

/-!
# The life of an API key

Commands change the statuses, the digests and the ids of the keys, and the server reads
them. A command lets a secret in that was kept out only if it was given its digest, unless
it rotates a key that was disabled; a revoked key's secret stays out, unless another entry
has its digest.
-/

namespace Llmctl.Cli

/-! ## Sequences of commands -/

structure KeyStep where
  command : Command
  inputs : Inputs

/-- A command that saves nothing leaves the configuration. -/
def KeyStep.run (step : KeyStep) (cfg : Config) : Result Config := do
  let new ← step.command.compute step.inputs cfg
  pure (new.getD cfg)

def runCommands (cfg : Config) : List KeyStep → Result Config
  | [] => .ok cfg
  | step :: steps => do
    let cfg ← step.run cfg
    runCommands cfg steps

/-- The digest that a command is given, as it is stored. -/
def Command.digest : Command → Option String
  | .addKey args => some args.sha256.toLower
  | .rotateKey args => some args.sha256.toLower
  | _ => none

def enabled (key : ApiKeyConfig) : Bool := key.status == "active" || key.status == "retiring"

def expired (key : ApiKeyConfig) (now : Int) : Prop := ∃ expiresAt, key.expiresAt = some expiresAt ∧ expiresAt ≤ now

/-- The command does not rotate to a new id a key that is disabled and has not expired, and
does not revoke an id while a key that can authenticate has a digest of it and is left. -/
def Careful (cfg : Config) (step : KeyStep) : Prop :=
  match step.command with
  | .rotateKey args => args.newId ≠ none → ∀ key, findKey cfg args.id = .ok key →
      enabled key = true ∨ expired key step.inputs.now
  | .revokeKey id => ∀ key ∈ cfg.apiKeys, key.id = id → ∀ left ∈ cfg.apiKeys.eraseP (fun key => key.id == id),
      apiKeyCanAuthenticate left step.inputs.now = true → constantTimeEqCaseInsensitive left.sha256 key.sha256 = false
  | _ => True

/-- Every step is careful in the state in which it runs. -/
def CarefulRun (cfg : Config) : List KeyStep → Prop
  | [] => True
  | step :: steps => Careful cfg step ∧ ∀ cfg', step.run cfg = .ok cfg' → CarefulRun cfg' steps

/-! ## What a command does to the keys -/

/-- From now on, the entry lets its secret in only while an old entry with its digest would. -/
def Held (cfg : Config) (now : Int) (key : ApiKeyConfig) : Prop :=
  ∃ old ∈ cfg.apiKeys, key.sha256 = old.sha256 ∧
    ∀ t, now ≤ t → apiKeyCanAuthenticate key t = true → apiKeyCanAuthenticate old t = true

theorem Held.of_mem {cfg : Config} {now : Int} {key : ApiKeyConfig} (h : key ∈ cfg.apiKeys) : Held cfg now key :=
  ⟨key, h, rfl, fun _ _ => id⟩

/-- A key that is retired lets in what it let in before, if it was enabled or has expired. -/
theorem Held.retired {cfg : Config} {now : Int} {key : ApiKeyConfig} (hmem : key ∈ cfg.apiKeys)
    (h : enabled key = true ∨ expired key now) : Held cfg now (retireKey now key) := by
  refine ⟨key, hmem, rfl, fun t ht hretired => ?_⟩
  unfold apiKeyCanAuthenticate at hretired ⊢
  rw [Bool.and_eq_true] at hretired ⊢
  refine ⟨?_, hretired.2⟩
  rcases h with henabled | ⟨e, he, hle⟩
  · exact henabled
  · have hlater : (some e).all (fun expiresAt => decide (t < expiresAt)) = true := by
      rw [← he]
      exact hretired.2
    have hlt : t < e := by simpa using hlater
    omega

section
variable {inputs : Inputs} {cfg cfg' : Config}

theorem findKey_eq {id : String} {key : ApiKeyConfig} :
    findKey cfg id = .ok key ↔ (cfg.apiKeys.find? fun key => key.id == id) = some key := by
  unfold findKey
  cases cfg.apiKeys.find? fun key => key.id == id with
  | none => simp
  | some other => simp

theorem addKey_held {args : SecurityAddKeyArgs} {new : Option Config} (h : addKey args inputs cfg = .ok new) :
    ∀ key ∈ (new.getD cfg).apiKeys, Held cfg inputs.now key ∨ key.sha256 = args.sha256.toLower := by
  obtain ⟨_, -, h⟩ := ok_of_bind h
  cases h
  intro key hkey
  rcases mem_upsertBy hkey with rfl | hmem
  · exact .inr rfl
  · exact .inl (.of_mem hmem)

theorem rotateKey_held {args : SecurityRotateKeyArgs} {new : Option Config} (h : rotateKey args inputs cfg = .ok new)
    (hcareful : Careful cfg ⟨.rotateKey args, inputs⟩) :
    ∀ key ∈ (new.getD cfg).apiKeys, Held cfg inputs.now key ∨ key.sha256 = args.sha256.toLower := by
  obtain ⟨_, -, h⟩ := ok_of_bind h
  obtain ⟨found, hfound, h⟩ := ok_of_bind h
  cases hn : args.newId with
  | some newId =>
    rw [hn] at h
    obtain ⟨_, -, h⟩ := ok_of_bind h
    split at h
    · cases h
    · cases h
      intro key hkey
      rcases List.mem_append.mp hkey with hmem | hmem
      · rcases mem_modifyFirst hmem with hmem | ⟨old, hold, rfl⟩
        · exact .inl (.of_mem hmem)
        · have hretired := hcareful (by rw [hn]; nofun) old (findKey_eq.mpr hold)
          exact .inl (.retired (List.mem_of_find?_eq_some hold) hretired)
      · obtain rfl := List.mem_singleton.mp hmem
        exact .inr rfl
  | none =>
    rw [hn] at h
    dsimp only at h
    split at h
    · cases h
      intro key hkey
      rcases mem_modifyFirst hkey with hmem | ⟨old, -, rfl⟩
      · exact .inl (.of_mem hmem)
      · exact .inr rfl
    · cases h

theorem revokeKey_keys_eq {id : String} {new : Option Config} (h : revokeKey id cfg = .ok new) :
    (new.getD cfg).apiKeys = cfg.apiKeys.eraseP fun key => key.id == id := by
  obtain ⟨_, -, h⟩ := ok_of_bind h
  cases h
  rfl

theorem replaceModel_apiKeys {args : ModelReplaceArgs} {new : Option Config} (h : replaceModel args inputs cfg = .ok new) :
    (new.getD cfg).apiKeys = cfg.apiKeys := by
  obtain ⟨previous, -, h⟩ := ok_of_bind h
  dsimp only at h
  split at h
  · cases h
    rfl
  · obtain ⟨_, -, h⟩ := ok_of_bind h
    obtain ⟨model, -, h⟩ := ok_of_bind h
    cases h
    rfl

/-- The keys after a careful command are held by old ones, or have the digest that it was given. -/
theorem run_held {step : KeyStep} (h : step.run cfg = .ok cfg') (hcareful : Careful cfg step) :
    ∀ key ∈ cfg'.apiKeys, Held cfg step.inputs.now key ∨ step.command.digest = some key.sha256 := by
  obtain ⟨command, inputs⟩ := step
  obtain ⟨new, hnew, h⟩ := ok_of_bind h
  obtain rfl : new.getD cfg = cfg' := Except.ok.inj h
  have hsame : (new.getD cfg).apiKeys = cfg.apiKeys →
      ∀ key ∈ (new.getD cfg).apiKeys, Held cfg inputs.now key ∨ command.digest = some key.sha256 := by
    intro heq key hkey
    rw [heq] at hkey
    exact .inl (.of_mem hkey)
  cases command with
  | install args =>
    obtain ⟨_, -, hnew⟩ := ok_of_bind hnew
    obtain ⟨model, -, hnew⟩ := ok_of_bind hnew
    cases hnew
    exact hsame rfl
  | startModel name weight dryRun =>
    obtain ⟨model, -, hnew⟩ := ok_of_bind hnew
    cases dryRun <;> cases hnew <;> exact hsame rfl
  | stopModel name dryRun =>
    obtain ⟨model, -, hnew⟩ := ok_of_bind hnew
    cases dryRun <;> cases hnew <;> exact hsame rfl
  | replaceModel args => exact hsame (replaceModel_apiKeys hnew)
  | importManifest manifest =>
    obtain ⟨_, -, hnew⟩ := ok_of_bind hnew
    obtain ⟨models, -, hnew⟩ := ok_of_bind hnew
    cases hnew
    exact hsame rfl
  | addKey args => exact fun key hkey => (addKey_held hnew key hkey).imp_right fun heq => by rw [heq]; rfl
  | rotateKey args =>
    exact fun key hkey => (rotateKey_held hnew hcareful key hkey).imp_right fun heq => by rw [heq]; rfl
  | revokeKey id =>
    intro key hkey
    rw [revokeKey_keys_eq hnew] at hkey
    exact .inl (.of_mem (List.eraseP_subset hkey))

end

/-! ## Which secrets are let in -/

section
variable (sha256 : String → String)

def Presents (headers : HeaderMap) (secret : String) : Prop :=
  (headers.get "authorization").bind HeaderValue.toStr = some ("Bearer ".toList ++ secret.toList)

/-- The secret authenticates as a key. Where no authentication is required, a request is
anonymous whatever it presents. -/
def Accepts (base : SecurityConfig) (cfg : Config) (now : Int) (secret : String) : Prop :=
  ∃ headers principal, Presents headers secret ∧
    authenticate sha256 { base with apiKeys := cfg.apiKeys } now headers = .ok principal ∧ principal.keyId.isSome = true

/-- The command was given the digest of the secret. -/
def Given (secret : String) (step : KeyStep) : Prop :=
  ∃ digest, step.command.digest = some digest ∧ constantTimeEqCaseInsensitive digest (sha256 secret) = true

variable {sha256} {base : SecurityConfig} {cfg cfg' : Config} {secret : String}

theorem authenticate_presents {headers : HeaderMap} {security : SecurityConfig} {now : Int}
    (h : Presents headers secret) (hauth : security.requireAuth = true) :
    authenticate sha256 security now headers =
      match (security.apiKeys.filter (apiKeyCanAuthenticate · now)).find? fun key =>
          constantTimeEqCaseInsensitive key.sha256 (sha256 secret) with
      | some key => .ok (.ofApiKey key)
      | none => .error "invalid bearer token" := by
  have hstart : "Bearer ".toList.isPrefixOf ("Bearer ".toList ++ secret.toList) = true :=
    List.isPrefixOf_iff_prefix.mpr (List.prefix_append _ _)
  have hdrop : String.ofList (("Bearer ".toList ++ secret.toList).drop 7) = secret := by
    rw [show (7 : Nat) = "Bearer ".toList.length by decide, List.drop_left, String.ofList_toList]
  have hheader : (headers.get "authorization").bind HeaderValue.toStr = some ("Bearer ".toList ++ secret.toList) := h
  unfold authenticate
  rw [hauth, hheader]
  dsimp only
  rw [hstart, hdrop]
  rfl

/-- Some key that can authenticate has the digest of the secret. -/
theorem accepts_iff {now : Int} : Accepts sha256 base cfg now secret ↔
    (base.requireAuth = true ∧ ∃ headers, Presents headers secret) ∧
      ∃ key ∈ cfg.apiKeys, apiKeyCanAuthenticate key now = true ∧
        constantTimeEqCaseInsensitive key.sha256 (sha256 secret) = true := by
  constructor
  · rintro ⟨headers, principal, hpresents, hok, hkey⟩
    have hauth : base.requireAuth = true := by
      by_contra hno
      unfold authenticate at hok
      rw [if_pos (by simp [hno])] at hok
      cases hok
      cases hkey
    have hauth' : ({ base with apiKeys := cfg.apiKeys } : SecurityConfig).requireAuth = true := hauth
    rw [authenticate_presents hpresents hauth'] at hok
    split at hok
    · rename_i key hfind
      have hmem := List.mem_filter.mp (List.mem_of_find?_eq_some hfind)
      have hdigest := List.find?_some hfind
      exact ⟨⟨hauth, headers, hpresents⟩, key, hmem.1, hmem.2, hdigest⟩
    · cases hok
  · rintro ⟨⟨hauth, headers, hpresents⟩, key, hmem, hcan, hdigest⟩
    have hfound : ((cfg.apiKeys.filter (apiKeyCanAuthenticate · now)).find? fun key =>
        constantTimeEqCaseInsensitive key.sha256 (sha256 secret)).isSome = true := by
      rw [List.find?_isSome]
      exact ⟨key, List.mem_filter.mpr ⟨hmem, hcan⟩, hdigest⟩
    obtain ⟨found, hfind⟩ := Option.isSome_iff_exists.mp hfound
    have hauth' : ({ base with apiKeys := cfg.apiKeys } : SecurityConfig).requireAuth = true := hauth
    refine ⟨headers, .ofApiKey found, hpresents, ?_, rfl⟩
    rw [authenticate_presents hpresents hauth']
    simp only [hfind]

/-- A careful command lets in no secret that was kept out, unless it was given its digest. -/
theorem accepts_of_run {step : KeyStep} (h : step.run cfg = .ok cfg') (hcareful : Careful cfg step) {t : Int}
    (ht : step.inputs.now ≤ t) (haccepts : Accepts sha256 base cfg' t secret) :
    Accepts sha256 base cfg t secret ∨ Given sha256 secret step := by
  obtain ⟨hpresents, key, hmem, hcan, hdigest⟩ := accepts_iff.mp haccepts
  rcases run_held h hcareful key hmem with ⟨old, hold, hsame, hheld⟩ | hgiven
  · exact .inl (accepts_iff.mpr ⟨hpresents, old, hold, hheld t ht hcan, hsame ▸ hdigest⟩)
  · exact .inr ⟨_, hgiven, hdigest⟩

theorem canAuthenticate_earlier {key : ApiKeyConfig} {t t' : Int} (hle : t ≤ t') (h : apiKeyCanAuthenticate key t' = true) :
    apiKeyCanAuthenticate key t = true := by
  unfold apiKeyCanAuthenticate at h ⊢
  rw [Bool.and_eq_true] at h ⊢
  refine ⟨h.1, ?_⟩
  cases he : key.expiresAt with
  | none => rfl
  | some e =>
    have hlt : t' < e := by simpa [he] using h.2
    have hlt : t < e := by omega
    simpa using hlt

theorem accepts_earlier {t t' : Int} (hle : t ≤ t') (h : Accepts sha256 base cfg t' secret) :
    Accepts sha256 base cfg t secret := by
  obtain ⟨hpresents, key, hmem, hcan, hdigest⟩ := accepts_iff.mp h
  exact accepts_iff.mpr ⟨hpresents, key, hmem, canAuthenticate_earlier hle hcan, hdigest⟩

/-! ## Runs -/

theorem CarefulRun.append {steps more : List KeyStep} {cfg mid : Config} (h : CarefulRun cfg (steps ++ more))
    (hrun : runCommands cfg steps = .ok mid) : CarefulRun mid more := by
  induction steps generalizing cfg with
  | nil =>
    obtain rfl := Except.ok.inj hrun
    exact h
  | cons step steps ih =>
    obtain ⟨next, hnext, hrest⟩ := ok_of_bind hrun
    exact ih (h.2 next hnext) hrest

theorem CarefulRun.of_append {steps more : List KeyStep} (h : CarefulRun cfg (steps ++ more)) : CarefulRun cfg steps := by
  induction steps generalizing cfg with
  | nil => trivial
  | cons step steps ih => exact ⟨h.1, fun next hnext => ih (h.2 next hnext)⟩

/-- A secret that is kept out stays out while no command is given its digest. -/
theorem rejected_of_run {steps : List KeyStep} {t : Int} (hrejected : ¬ Accepts sha256 base cfg t secret)
    (hcareful : CarefulRun cfg steps) (hrun : runCommands cfg steps = .ok cfg') (htimes : ∀ step ∈ steps, step.inputs.now ≤ t)
    (hnot : ∀ step ∈ steps, ¬ Given sha256 secret step) : ¬ Accepts sha256 base cfg' t secret := by
  induction steps generalizing cfg with
  | nil =>
    obtain rfl := Except.ok.inj hrun
    exact hrejected
  | cons step steps ih =>
    obtain ⟨next, hnext, hrest⟩ := ok_of_bind hrun
    obtain ⟨htime, htimes⟩ := List.forall_mem_cons.mp htimes
    obtain ⟨hgiven, hnot⟩ := List.forall_mem_cons.mp hnot
    refine ih (fun haccepts => ?_) (hcareful.2 next hnext) hrest htimes hnot
    rcases accepts_of_run hnext hcareful.1 htime haccepts with hbefore | hgave
    · exact hrejected hbefore
    · exact hgiven hgave

/-- A careful revocation keeps out the secrets of its id. -/
theorem rejected_of_revoke {step : KeyStep} {id : String} (hrevoke : step.command = .revokeKey id)
    (h : step.run cfg = .ok cfg') (hcareful : Careful cfg step) {key : ApiKeyConfig} (hkey : key ∈ cfg.apiKeys)
    (hid : key.id = id) (hsecret : constantTimeEqCaseInsensitive key.sha256 (sha256 secret) = true) {t : Int}
    (ht : step.inputs.now ≤ t) : ¬ Accepts sha256 base cfg' t secret := by
  obtain ⟨command, inputs⟩ := step
  obtain rfl : command = .revokeKey id := hrevoke
  obtain ⟨new, hnew, h⟩ := ok_of_bind h
  obtain rfl : new.getD cfg = cfg' := Except.ok.inj h
  intro haccepts
  obtain ⟨-, left, hleft, hcan, hdigest⟩ := accepts_iff.mp haccepts
  rw [revokeKey_keys_eq hnew] at hleft
  have hother := hcareful key hkey hid left hleft (canAuthenticate_earlier ht hcan)
  have hboth : constantTimeEqCaseInsensitive left.sha256 key.sha256 = true := by
    unfold constantTimeEqCaseInsensitive at hdigest hsecret ⊢
    simp only [Bool.and_eq_true, beq_iff_eq] at hdigest hsecret ⊢
    exact ⟨hdigest.1.trans hsecret.1.symm, hdigest.2.trans hsecret.2.symm⟩
  rw [hboth] at hother
  cases hother

/-- Along these commands, a secret is let in again only by a command that is given its digest,
and stays out after its id was revoked. -/
structure SecretsFollow (sha256 : String → String) (base : SecurityConfig) (cfg : Config) (steps : List KeyStep) : Prop where
  revived : ∀ {pre step post before after secret t t'}, steps = pre ++ step :: post → runCommands cfg pre = .ok before →
    step.run before = .ok after → t ≤ t' → step.inputs.now ≤ t' → ¬ Accepts sha256 base before t secret →
    Accepts sha256 base after t' secret → Given sha256 secret step
  revoked : ∀ {pre step mid post id before after key secret t}, steps = pre ++ (step :: mid) ++ post →
    runCommands cfg pre = .ok before → runCommands before (step :: mid) = .ok after → step.command = .revokeKey id →
    key ∈ before.apiKeys → key.id = id → constantTimeEqCaseInsensitive key.sha256 (sha256 secret) = true →
    (∀ s ∈ step :: mid, s.inputs.now ≤ t) → (∀ s ∈ mid, ¬ Given sha256 secret s) → ¬ Accepts sha256 base after t secret

theorem secretsFollow_of_careful (sha256 : String → String) (base : SecurityConfig) {cfg : Config} {steps : List KeyStep}
    (hcareful : CarefulRun cfg steps) : SecretsFollow sha256 base cfg steps where
  revived := by
    intro pre step post before after secret t t' hsteps hpre hstep hle ht hrejected haccepts
    subst hsteps
    have hcare := hcareful.append hpre
    rcases accepts_of_run hstep hcare.1 ht haccepts with hbefore | hgiven
    · exact absurd (accepts_earlier hle hbefore) hrejected
    · exact hgiven
  revoked := by
    intro pre step mid post id before after key secret t hsteps hpre hrun hrevoke hkey hid hsecret htimes hnot
    rw [List.append_assoc] at hsteps
    subst hsteps
    have hcare := hcareful.append hpre
    obtain ⟨next, hnext, hrest⟩ := ok_of_bind hrun
    obtain ⟨htime, htimes⟩ := List.forall_mem_cons.mp htimes
    have hmid : CarefulRun next mid := (hcare.2 next hnext).of_append
    exact rejected_of_run (rejected_of_revoke hrevoke hnext hcare.1 hkey hid hsecret htime) hmid hrest htimes hnot

end

/-! ## Two rotations -/

def oldDigest : String := "f8ee85f59a75fdb3a3fbf0941423f26a65a8ed0a5f6d7ff832acd8edf5635499"

def newDigest : String := "859601deb772672b933ef30d66609610c928bcf116951a52f4b8698f34c1fc80"

def secretDigest (secret : String) : String :=
  if secret = "old secret" then oldDigest else if secret = "new secret" then newDigest else ""

def chatSecurity : SecurityConfig where
  requireAuth := true
  authFailureLimitPerMinute := 0
  trustedProxies := []
  apiKeys := []

def opsKey (status : String) : ApiKeyConfig where
  id := "ops"
  sha256 := oldDigest
  subject := "operator"
  team := "ops"
  scopes := ["chat"]
  createdAt := none
  expiresAt := none
  rotatedAt := none
  owner := none
  purpose := none
  lastFour := none
  fingerprint := none
  status := status

def opsConfig (status : String) : Config := ⟨[], [opsKey status], "models"⟩

def rotateOps : SecurityRotateKeyArgs := ⟨"ops", some "ops-2", newDigest, none, none, false⟩

def stepAt (now : Int) (command : Command) : KeyStep :=
  ⟨command, { installModel := fun _ => .error "no artifact", importOfflineManifest := fun _ => .error "no manifest", now }⟩

/-- The configuration after `rotateOps` at `now`. -/
def rotatedConfig (now : Int) (status : String) : Config :=
  ⟨[], [retireKey now (opsKey status), replacementKey rotateOps "ops-2" now (opsKey status)], "models"⟩

theorem run_rotateOps (status : String) : (stepAt 5 (.rotateKey rotateOps)).run (opsConfig status) = .ok (rotatedConfig 5 status) := by
  have hdigest : validateSha256Digest newDigest.toLower = .ok () := by decide +kernel
  have hid : validateApiKeyId "ops-2" = .ok () := by decide +kernel
  simp only [KeyStep.run, stepAt, Command.compute, rotateKey, rotateOps]
  rw [hdigest]
  rfl

/-- An active key is rotated to a new id, and revoked later. -/
theorem secretsFollow_of_overlap : SecretsFollow secretDigest chatSecurity (opsConfig "active")
    [stepAt 5 (.rotateKey rotateOps), stepAt 9 (.revokeKey "ops")] := by
  refine secretsFollow_of_careful secretDigest chatSecurity ⟨fun _ key hkey => .inl ?_, fun cfg hcfg => ⟨?_, fun _ _ => trivial⟩⟩
  · cases hkey
    decide
  · rw [run_rotateOps] at hcfg
    cases hcfg
    show ∀ key ∈ (rotatedConfig 5 "active").apiKeys, key.id = "ops" →
      ∀ left ∈ (rotatedConfig 5 "active").apiKeys.eraseP (fun key => key.id == "ops"),
        apiKeyCanAuthenticate left 9 = true → constantTimeEqCaseInsensitive left.sha256 key.sha256 = false
    decide +kernel

/-- A key that an operator disabled is rotated to a new id, and its old secret is let in. -/
theorem secrets_revived : ¬ ∀ cfg steps, SecretsFollow secretDigest chatSecurity cfg steps := by
  intro hall
  have hrun := run_rotateOps "revoked"
  have hold : secretDigest "old secret" = oldDigest := if_pos rfl
  have hdigest : constantTimeEqCaseInsensitive oldDigest oldDigest = true := by decide +kernel
  have hother : constantTimeEqCaseInsensitive newDigest.toLower oldDigest = false := by decide +kernel
  have hrejected : ¬ Accepts secretDigest chatSecurity (opsConfig "revoked") 5 "old secret" := by
    intro haccepts
    obtain ⟨-, key, hkey, hcan, -⟩ := accepts_iff.mp haccepts
    obtain rfl := List.mem_singleton.mp hkey
    exact absurd hcan (by decide)
  have haccepts : Accepts secretDigest chatSecurity (rotatedConfig 5 "revoked") 5 "old secret" := by
    refine accepts_iff.mpr ⟨⟨rfl, [("authorization", "Bearer old secret".toUTF8.toList)], ?_⟩, ?_⟩
    · unfold Presents
      decide +kernel
    · exact ⟨_, List.mem_cons_self, rfl, hold ▸ hdigest⟩
  obtain ⟨digest, hnew, hgiven⟩ := (hall (opsConfig "revoked") [stepAt 5 (.rotateKey rotateOps)]).revived
    (List.nil_append _).symm rfl hrun (le_refl 5) (le_refl 5) hrejected haccepts
  obtain rfl : newDigest.toLower = digest := Option.some.inj hnew
  rw [hold, hother] at hgiven
  cases hgiven

end Llmctl.Cli
