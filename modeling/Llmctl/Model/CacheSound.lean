import Llmctl.Model.Cached

/-!
# Installs with and without a copy

Two calls of `installModel` that differ in `copyToCache` only, and when they install the same.
-/

namespace Llmctl.Install

open Fs

section
variable (sha256 : List UInt8 → String)

/-- The two calls fail, or they install what has one digest and is loaded alike. -/
@[irreducible] def InstallsAlike (network : Network) (cacheDir : Path) (req : ModelInstallRequest) (tree : Tree) : Prop :=
  let inPlace := Call.run sha256 ⟨network, { req with copyToCache := false }⟩ cacheDir tree
  let cached := Call.run sha256 ⟨network, { req with copyToCache := true }⟩ cacheDir tree
  match inPlace.1, cached.1 with
  | .ok model, .ok model' => model.sha256 = model'.sha256 ∧
      ∀ family, Native.selectedFiles inPlace.2 family model.config = Native.selectedFiles cached.2 family model'.config
  | .error _, .error _ => True
  | _, _ => False

/-- The bytes that the digest of a directory is of. -/
def listing (files : List (OsString × List UInt8)) : List UInt8 :=
  files.flatMap fun (name, bytes) => (toStr name).getD [] ++ [0] ++ osString (sha256 bytes) ++ [0]

def Passes (expected : Option String) (digest : String) : Prop := ∀ e, expected = some e → e = digest

/-- A directory of which nothing is missed in its copy. -/
structure LinksSpare (tree : Tree) (path : Path) : Prop where
  sidecars : ∀ sidecar ∈ sidecars, ¬ LinkToFile tree path sidecar
  weights : ∃ entry ∈ tree.readDir path, (toStr entry.1).any isSafetensorsName = true ∧ ∀ target, entry.2 ≠ .link target
  loaded : Native.NativeModelFormat.fromPath path ≠ .gguf → ∀ name, LoadedName tree path name → ¬ LinkToFile tree path name

/-- Of a directory that is as expected nothing is missed in its copy. A safetensors file is expected neither by its digest nor by that of the
directory that it becomes, or these are equal, and the directory has not the name of a GGUF file. -/
def CachesAlike (tree : Tree) (path : Path) (expected : Option String) : Prop :=
  match tree.metadata path with
  | some .dir => Passes expected (sha256 (listing sha256 (artifactFiles tree path))) → LinksSpare tree path
  | some (.file bytes) => isSafetensorsPath path = true →
      Passes expected (sha256 bytes) ∨ Passes expected (sha256 (listing sha256 (layoutFiles tree path))) →
        sha256 bytes = sha256 (listing sha256 (layoutFiles tree path)) ∧
          (Native.NativeModelFormat.fromPath path = .safetensors → Native.NativeModelFormat.fromPath (withExtension [] path) ≠ .gguf)
  | _ => True

/-! ## One call -/

section
variable {sha256} {network : Network} {cacheDir path : Path} {req : ModelInstallRequest} {plan : ModelInstallPlan} {tree tree' : Tree}
  (hplan : installPlan network req = .ok plan)
  (hcache : Runs (createDirAll s!"create model cache {display cacheDir}" cacheDir) tree (.ok ()) tree)
  (hfetch : Runs (fetch sha256 network cacheDir req plan.verification.expectedSha256) tree (.ok path) tree')
include hplan hcache hfetch

theorem runs_installModel_incomplete {e : String} (hincomplete : ensureSupportedArtifactPath tree' path = .error e) :
    Runs (installModel sha256 network cacheDir req) tree (.error e) tree' := by
  refine (runs_liftResult_ok hplan).bind (hcache.bind (hfetch.bind (runs_get ?_)))
  exact (runs_liftResult_error hincomplete).bind_error

section
variable {digest : String} (haccepted : ensureSupportedArtifactPath tree' path = .ok ())
  (hdigest : sha256ModelArtifact sha256 tree' path = .ok digest)
include haccepted hdigest

theorem runs_installModel_refused (hpasses : ¬ Passes plan.verification.expectedSha256 digest) :
    ∃ e, Runs (installModel sha256 network cacheDir req) tree (.error e) tree' := by
  have hany : plan.verification.expectedSha256.any (· ≠ digest) = true := by
    cases hexpected : plan.verification.expectedSha256 with
    | none =>
      rw [hexpected] at hpasses
      exact absurd (fun _ => by simp) hpasses
    | some e =>
      refine decide_eq_true fun he => hpasses fun other hother => ?_
      rw [hexpected, Option.some.injEq] at hother
      exact hother ▸ he
  apply Exists.intro
  refine (runs_liftResult_ok hplan).bind (hcache.bind (hfetch.bind (runs_get ?_)))
  refine (runs_liftResult_ok haccepted).bind ((runs_liftResult_ok hdigest).bind ?_)
  rw [if_pos hany]
  exact runs_throw ..

theorem runs_installModel_ok (hpasses : Passes plan.verification.expectedSha256 digest) :
    ∃ model, Runs (installModel sha256 network cacheDir req) tree (.ok model) tree' ∧ model.sha256 = digest ∧
      model.config = ⟨req.alias_, path, req.role, req.family, req.weight⟩ := by
  have hany : plan.verification.expectedSha256.any (· ≠ digest) = false := by
    cases hexpected : plan.verification.expectedSha256 with
    | none => rfl
    | some e => exact decide_eq_false (not_not.mpr (hpasses e hexpected))
  have hlen : ∃ bytes, modelArtifactLen tree' path = .ok bytes := by
    unfold modelArtifactLen
    cases hmeta : tree'.metadata path with
    | none =>
      rw [ensureSupportedArtifactPath, hmeta] at haccepted
      cases haccepted
    | some entry => cases entry <;> exact ⟨_, rfl⟩
  obtain ⟨bytes, hlen⟩ := hlen
  apply Exists.intro
  refine ⟨(runs_liftResult_ok hplan).bind (hcache.bind (hfetch.bind (runs_get ?_))), ?_⟩
  refine (runs_liftResult_ok haccepted).bind ((runs_liftResult_ok hdigest).bind ?_)
  rw [if_neg (by rw [hany]; exact Bool.false_ne_true)]
  · exact (runs_liftResult_ok hlen).bind (runs_pure ..)
  · exact ⟨rfl, rfl⟩

end

end

/-! ## Both calls -/

variable {sha256} {network : Network} {cacheDir path path' : Path} {req : ModelInstallRequest} {tree tree' : Tree}

/-- What is configured of an artifact. -/
def configOf (req : ModelInstallRequest) (path : Path) : ModelConfig := ⟨req.alias_, path, req.role, req.family, req.weight⟩

section
variable {left left' : Tree}

theorem installsAlike_of_errors {e e' : String}
    (h : Runs (installModel sha256 network cacheDir { req with copyToCache := false }) tree (.error e) left)
    (h' : Runs (installModel sha256 network cacheDir { req with copyToCache := true }) tree (.error e') left') :
    InstallsAlike sha256 network cacheDir req tree := by
  unfold Runs at h h'
  rw [InstallsAlike, Call.run, Call.run, h, h']
  trivial

theorem not_installsAlike_of_error {model : InstalledModel} {e : String}
    (h : Runs (installModel sha256 network cacheDir { req with copyToCache := false }) tree (.ok model) left)
    (h' : Runs (installModel sha256 network cacheDir { req with copyToCache := true }) tree (.error e) left') :
    ¬ InstallsAlike sha256 network cacheDir req tree := by
  unfold Runs at h h'
  rw [InstallsAlike, Call.run, Call.run, h, h']
  exact not_false

theorem not_installsAlike_of_error' {model : InstalledModel} {e : String}
    (h : Runs (installModel sha256 network cacheDir { req with copyToCache := false }) tree (.error e) left)
    (h' : Runs (installModel sha256 network cacheDir { req with copyToCache := true }) tree (.ok model) left') :
    ¬ InstallsAlike sha256 network cacheDir req tree := by
  unfold Runs at h h'
  rw [InstallsAlike, Call.run, Call.run, h, h']
  exact not_false

theorem installsAlike_iff_of_models {model model' : InstalledModel}
    (h : Runs (installModel sha256 network cacheDir { req with copyToCache := false }) tree (.ok model) left)
    (h' : Runs (installModel sha256 network cacheDir { req with copyToCache := true }) tree (.ok model') left') :
    InstallsAlike sha256 network cacheDir req tree ↔ model.sha256 = model'.sha256 ∧
      ∀ family, Native.selectedFiles left family model.config = Native.selectedFiles left' family model'.config := by
  unfold Runs at h h'
  rw [InstallsAlike, Call.run, Call.run, h, h']

end

theorem installsAlike_of_refused {e : String} (hplan : installPlan network req = .error e) : InstallsAlike sha256 network cacheDir req tree := by
  have hrun (copyToCache : Bool) :
      Runs (installModel sha256 network cacheDir { req with copyToCache }) tree (.error e) tree :=
    (runs_liftResult_error hplan).bind_error
  exact installsAlike_of_errors (hrun false) (hrun true)

section
variable {plan : ModelInstallPlan} {digest : String} (hsource : req.source = .localPath path)
  (hplan : installPlan network req = .ok plan)
  (hcache : Runs (createDirAll s!"create model cache {display cacheDir}" cacheDir) tree (.ok ()) tree)
include hsource hplan hcache

/-- A call installs what has the expected digest, and fails otherwise. -/
theorem call_cases {copyToCache : Bool} {result : Path} {left : Tree}
    (hregister : Runs (registerLocalModel path cacheDir copyToCache) tree (.ok result) left)
    (haccepted : ensureSupportedArtifactPath left result = .ok ()) (hdigest : sha256ModelArtifact sha256 left result = .ok digest) :
    (Passes plan.verification.expectedSha256 digest ∧
      ∃ model, Runs (installModel sha256 network cacheDir { req with copyToCache }) tree (.ok model) left ∧ model.sha256 = digest ∧
        model.config = configOf req result) ∨
    (¬ Passes plan.verification.expectedSha256 digest ∧
      ∃ e, Runs (installModel sha256 network cacheDir { req with copyToCache }) tree (.error e) left) := by
  have hplanned : installPlan network { req with copyToCache } = .ok plan := hplan
  have hfetch : Runs (fetch sha256 network cacheDir { req with copyToCache } plan.verification.expectedSha256) tree (.ok result) left := by
    rw [fetch, hsource]
    exact hregister
  by_cases hpasses : Passes plan.verification.expectedSha256 digest
  · exact .inl ⟨hpasses, runs_installModel_ok hplanned hcache hfetch haccepted hdigest hpasses⟩
  · exact .inr ⟨hpasses, runs_installModel_refused hplanned hcache hfetch haccepted hdigest hpasses⟩

variable (hinPlace : Runs (registerLocalModel path cacheDir false) tree (.ok path) tree)
  (hcached : Runs (registerLocalModel path cacheDir true) tree (.ok path') tree')
  (haccepted : ensureSupportedArtifactPath tree path = .ok ()) (hdigest : sha256ModelArtifact sha256 tree path = .ok digest)
include hinPlace hcached haccepted hdigest

theorem installsAlike_iff_of_digest {digest' : String} (haccepted' : ensureSupportedArtifactPath tree' path' = .ok ())
    (hdigest' : sha256ModelArtifact sha256 tree' path' = .ok digest') :
    InstallsAlike sha256 network cacheDir req tree ↔
      (Passes plan.verification.expectedSha256 digest ∨ Passes plan.verification.expectedSha256 digest' →
        digest = digest' ∧
          ∀ family, Native.selectedFiles tree family (configOf req path) = Native.selectedFiles tree' family (configOf req path')) := by
  rcases call_cases hsource hplan hcache hinPlace haccepted hdigest with ⟨hpasses, model, hruns, hsha, hconfig⟩ | ⟨hpasses, e, hruns⟩
  · rcases call_cases hsource hplan hcache hcached haccepted' hdigest' with ⟨-, model', hruns', hsha', hconfig'⟩ | ⟨hpasses', e, hruns'⟩
    · rw [installsAlike_iff_of_models hruns hruns', hconfig, hconfig', hsha, hsha']
      exact (imp_iff_right (Or.inl hpasses)).symm
    · exact iff_of_false (not_installsAlike_of_error hruns hruns') fun h => hpasses' ((h (Or.inl hpasses)).1 ▸ hpasses)
  · rcases call_cases hsource hplan hcache hcached haccepted' hdigest' with ⟨hpasses', model', hruns', -⟩ | ⟨hpasses', e', hruns'⟩
    · exact iff_of_false (not_installsAlike_of_error' hruns hruns') fun h => hpasses ((h (Or.inr hpasses')).1 ▸ hpasses')
    · exact iff_of_true (installsAlike_of_errors hruns hruns') fun h => (h.elim hpasses hpasses').elim

theorem installsAlike_iff_of_incomplete {e : String} (hincomplete : ensureSupportedArtifactPath tree' path' = .error e) :
    InstallsAlike sha256 network cacheDir req tree ↔ ¬ Passes plan.verification.expectedSha256 digest := by
  have hfetch : Runs (fetch sha256 network cacheDir { req with copyToCache := true } plan.verification.expectedSha256) tree
      (.ok path') tree' := by
    rw [fetch, hsource]
    exact hcached
  have hplanned : installPlan network { req with copyToCache := true } = .ok plan := hplan
  have hruns' := runs_installModel_incomplete hplanned hcache hfetch hincomplete
  rcases call_cases hsource hplan hcache hinPlace haccepted hdigest with ⟨hpasses, model, hruns, -⟩ | ⟨hpasses, e', hruns⟩
  · exact iff_of_false (not_installsAlike_of_error hruns hruns') (not_not.mpr hpasses)
  · exact iff_of_true (installsAlike_of_errors hruns hruns') hpasses

end

/-! ## Each kind of artifact -/

section
variable (sha256)

theorem sha256ModelArtifact_file {bytes : List UInt8} (hfile : tree.metadata path = some (.file bytes)) :
    sha256ModelArtifact sha256 tree path = .ok (sha256 bytes) := by
  rw [sha256ModelArtifact, hfile]

theorem sha256ModelArtifact_dir (hdir : tree.metadata path = some .dir) (hlayout : ensureSafetensorsLayout tree path = .ok ()) :
    sha256ModelArtifact sha256 tree path = .ok (sha256 (listing sha256 (artifactFiles tree path))) := by
  rw [sha256ModelArtifact, hdir]
  dsimp only
  rw [hlayout]
  rfl

end

theorem ensureSupportedArtifactPath_dir (hdir : tree.metadata path = some .dir) :
    ensureSupportedArtifactPath tree path = ensureSafetensorsLayout tree path := by
  rw [ensureSupportedArtifactPath, hdir]

section
variable {cacheReal parent : Path} {filename : OsString} {plan : ModelInstallPlan}
  (h : CacheFor tree cacheDir cacheReal (filename :: parent)) (hsource : req.source = .localPath (filename :: parent))
  (hplan : installPlan network req = .ok plan)
include h hsource hplan

theorem installsAlike_dir (hmeta : tree.metadata (filename :: parent) = some .dir) : InstallsAlike sha256 network cacheDir req tree ↔
    (Passes plan.verification.expectedSha256 (sha256 (listing sha256 (artifactFiles tree (filename :: parent)))) →
      LinksSpare tree (filename :: parent)) := by
  obtain ⟨real, hreal, hdir⟩ := Option.bind_eq_some_iff.mp hmeta
  obtain ⟨tree', hruns, hcopied⟩ := h.runs_dir hreal hdir
  have hlayout := (ensureSupportedArtifactPath_dir hmeta).symm.trans h.accepted
  have hmeta' : tree'.metadata (filename :: cacheDir) = some .dir := by
    rw [Tree.metadata, hcopied.resolves', Option.bind_some, hcopied.isDir']
  have hdigest := sha256ModelArtifact_dir sha256 hmeta hlayout
  have hselected (hsidecars : ∀ sidecar ∈ sidecars, ¬ LinkToFile tree (filename :: parent) sidecar) :=
    hcopied.selectedFiles_iff (rfl : (configOf req (filename :: parent)).path = _) (rfl : (configOf req (filename :: cacheDir)).path = _) rfl
      (isFile_of_layout hlayout) hsidecars
  cases hlayout' : ensureSafetensorsLayout tree' (filename :: cacheDir) with
  | ok =>
    obtain ⟨hsidecars, hweights⟩ := (hcopied.layout_iff hlayout).mp hlayout'
    have hdigest' := sha256ModelArtifact_dir sha256 hmeta' hlayout'
    rw [hcopied.artifactFiles_eq] at hdigest'
    rw [installsAlike_iff_of_digest hsource hplan h.runs_createDirAll h.runs_inPlace hruns h.accepted hdigest
      ((ensureSupportedArtifactPath_dir hmeta').trans hlayout') hdigest', or_self, and_iff_right rfl, hselected hsidecars]
    exact imp_congr_right fun _ => ⟨fun hloaded => ⟨hsidecars, hweights, hloaded⟩, fun hspare => hspare.loaded⟩
  | error e =>
    rw [installsAlike_iff_of_incomplete hsource hplan h.runs_createDirAll h.runs_inPlace hruns h.accepted hdigest
      ((ensureSupportedArtifactPath_dir hmeta').trans hlayout')]
    refine imp_congr_right fun _ => ⟨False.elim, fun hspare => ?_⟩
    rw [(hcopied.layout_iff hlayout).mpr ⟨hspare.sidecars, hspare.weights⟩] at hlayout'
    cases hlayout'

theorem installsAlike_file {bytes : List UInt8} (hmeta : tree.metadata (filename :: parent) = some (.file bytes))
    (hname : isSafetensorsPath (filename :: parent) = false) : InstallsAlike sha256 network cacheDir req tree := by
  obtain ⟨tree', hruns, hmeta'⟩ := h.runs_file hmeta hname
  obtain ⟨name, hutf8, hsupported, -⟩ := (accepted_file_iff hmeta).mp h.accepted
  obtain rfl := Native.eq_of_toStr hutf8
  have haccepted' : ensureSupportedArtifactPath tree' (name :: cacheDir) = .ok () :=
    (accepted_file_iff hmeta').mpr ⟨name, hutf8, hsupported, fun hsafetensors => absurd (hsafetensors.symm.trans hname) (by decide)⟩
  have hfile : tree.isFile (name :: parent) = true := by rw [Tree.isFile, hmeta]
  have hfile' : tree'.isFile (name :: cacheDir) = true := by rw [Tree.isFile, hmeta']
  refine (installsAlike_iff_of_digest hsource hplan h.runs_createDirAll h.runs_inPlace hruns h.accepted
    (sha256ModelArtifact_file sha256 hmeta) haccepted' (sha256ModelArtifact_file sha256 hmeta')).mpr fun _ => ⟨rfl, fun family => ?_⟩
  cases hformat : Native.NativeModelFormat.fromPath (name :: parent) with
  | gguf =>
    have hsame : Native.contents tree (name :: parent) = Native.contents tree' (name :: cacheDir) := by
      rw [Native.contents, Native.contents, hmeta, hmeta']
    rw [Native.selectedFiles_gguf hfile hformat, Native.selectedFiles_gguf hfile' hformat]
    exact hsame ▸ rfl
  | safetensors =>
    have hends := List.isSuffixOf_iff_suffix.mpr (Native.suffix_of_fromPath.2 hformat)
    rw [isSafetensorsPath, hutf8] at hname
    exact absurd (hends.symm.trans hname) (by decide)
  | unknown =>
    rw [Native.selectedFiles_unknown ((Native.inferNativeArtifactFormat_file hfile).trans hformat),
      Native.selectedFiles_unknown ((Native.inferNativeArtifactFormat_file hfile').trans hformat)]

theorem installsAlike_beside {bytes : List UInt8} (hmeta : tree.metadata (filename :: parent) = some (.file bytes))
    (hname : isSafetensorsPath (filename :: parent) = true) : InstallsAlike sha256 network cacheDir req tree ↔
    (Passes plan.verification.expectedSha256 (sha256 bytes) ∨
        Passes plan.verification.expectedSha256 (sha256 (listing sha256 (layoutFiles tree (filename :: parent)))) →
      sha256 bytes = sha256 (listing sha256 (layoutFiles tree (filename :: parent))) ∧
        (Native.NativeModelFormat.fromPath (filename :: parent) = .safetensors →
          Native.NativeModelFormat.fromPath (withExtension [] (filename :: parent)) ≠ .gguf)) := by
  obtain ⟨stem, tree', hstem, hruns, hbeside⟩ := h.runs_beside hmeta hname
  have hlayout := hbeside.layout hname
  have hmeta' : tree'.metadata (stem :: cacheDir) = some .dir := by
    rw [Tree.metadata, hbeside.resolves, Option.bind_some, hbeside.isDir]
  have hdigest' := sha256ModelArtifact_dir sha256 hmeta' hlayout
  rw [hbeside.artifactFiles_eq (not_sidecar hname)] at hdigest'
  have hfiles : ∀ name ∈ filename :: sidecars, tree.isFile (name :: parent) = true := by
    refine List.forall_mem_cons.mpr ⟨?_, h.sidecars_beside hmeta hname⟩
    rw [Tree.isFile, hmeta]
  rw [installsAlike_iff_of_digest hsource hplan h.runs_createDirAll h.runs_inPlace hruns h.accepted
    (sha256ModelArtifact_file sha256 hmeta) ((ensureSupportedArtifactPath_dir hmeta').trans hlayout) hdigest', hstem]
  refine imp_congr_right fun _ => and_congr_right fun _ => ?_
  exact hbeside.selectedFiles_iff hfiles rfl rfl hname

end

theorem installPlan_local (network : Network) (hsource : req.source = .localPath path) : installPlan network req = (do
    validateAlias req.alias_
    let expected ← req.expectedSha256.mapM normalizedSha256
    pure ⟨req.alias_, .local_, none, ⟨false, expected, none, false⟩⟩) := by
  rw [installPlan, hsource]
  rfl

/-- An install from an empty cache is like one in place where nothing is missed in the copy and no digest is of what is not there. -/
theorem installsAlike_iff {cacheReal : Path} (h : CacheFor tree cacheDir cacheReal path) (hsource : req.source = .localPath path) :
    InstallsAlike sha256 network cacheDir req tree ↔
      (validateAlias req.alias_ = .ok () → ∀ expected, req.expectedSha256.mapM normalizedSha256 = .ok expected →
        CachesAlike sha256 tree path expected) := by
  have hplan := installPlan_local network hsource
  cases halias : validateAlias req.alias_ with
  | error e =>
    rw [halias] at hplan
    exact iff_of_true (installsAlike_of_refused hplan) (by simp)
  | ok =>
    rw [halias] at hplan
    cases hexpected : req.expectedSha256.mapM normalizedSha256 with
    | error e =>
      rw [hexpected] at hplan
      exact iff_of_true (installsAlike_of_refused hplan) (by simp)
    | ok expected =>
      rw [hexpected] at hplan
      have hcaches : InstallsAlike sha256 network cacheDir req tree ↔ CachesAlike sha256 tree path expected := by
        obtain ⟨filename, parent, rfl⟩ := h.path_eq
        unfold CachesAlike
        cases hmeta : tree.metadata (filename :: parent) with
        | none =>
          have haccepted := h.accepted
          rw [ensureSupportedArtifactPath, hmeta] at haccepted
          cases haccepted
        | some entry =>
          cases entry with
          | dir => exact installsAlike_dir h hsource hplan hmeta
          | link target =>
            obtain ⟨real, hreal, hlink⟩ := Option.bind_eq_some_iff.mp hmeta
            exact absurd hlink (Tree.resolve_not_link hreal target)
          | file bytes =>
            cases hname : isSafetensorsPath (filename :: parent) with
            | false => exact iff_of_true (installsAlike_file h hsource hplan hmeta hname) (by simp)
            | true => exact (installsAlike_beside h hsource hplan hmeta hname).trans (imp_iff_right rfl).symm
      rw [hcaches]
      exact ⟨fun hcaches _ other hother => Except.ok.inj hother ▸ hcaches, fun hcaches => hcaches rfl expected rfl⟩

end

/-- A GGUF file is installed alike. -/
theorem installsAlike_gguf : CacheFor shelf cache cache [osString "m.gguf", osString "x"] ∧
    InstallsAlike rawSum offline cache (copyOf "m.gguf" "x").request shelf := by
  have hreal : shelf.resolve [osString "m.gguf", osString "x"] = some [osString "m.gguf", osString "x"] := by decide +kernel
  have hfile : shelf.lookup [osString "m.gguf", osString "x"] = some (.file [103]) := by decide +kernel
  have hcache : CacheFor shelf cache cache [osString "m.gguf", osString "x"] := {
    resolves := by decide +kernel
    isDir := by decide +kernel
    empty := by decide +kernel
    accepted := by decide +kernel
    outside := by
      intro real h
      cases hreal.symm.trans h
      decide +kernel
    depth := by
      intro real h rest hrest
      cases hreal.symm.trans h
      by_contra hlong
      refine hrest (Tree.lookup_below_leaf (by simp [hfile]) fun hnil => ?_)
      rw [hnil] at hlong
      exact hlong (Nat.zero_lt_succ _) }
  have hmeta : shelf.metadata [osString "m.gguf", osString "x"] = some (.file [103]) := by
    rw [Tree.metadata, hreal, Option.bind_some, hfile]
  have hname : isSafetensorsPath [osString "m.gguf", osString "x"] = false := by decide +kernel
  have hsource : (copyOf "m.gguf" "x").request.source = .localPath [osString "m.gguf", osString "x"] := rfl
  refine ⟨hcache, ?_⟩
  rw [installsAlike_iff hcache hsource]
  intro _ expected _
  rw [CachesAlike, hmeta]
  dsimp only
  simp [hname]

/-- Where all entries are leaves, nothing is further down. -/
theorem length_of_leaves {tree : Tree} {real rest : Path} (hleaves : ∀ name, tree.lookup (name :: real) ≠ some .dir)
    (h : tree.lookup (rest ++ real) ≠ none) : rest.length ≤ 1 := by
  rcases List.eq_nil_or_concat rest with rfl | ⟨rest, name, rfl⟩
  · exact Nat.zero_le 1
  · rw [List.concat_append] at h
    cases rest with
    | nil => exact le_rfl
    | cons child rest => exact absurd (Tree.lookup_above (List.cons_ne_nil _ _) h) (hleaves name)

/-- An empty cache, and a directory of links to the files of a model. -/
def linkedModel : FsM Unit := do
  ["c", "b", "s"].forM fun dir => createDir [osString dir] ""
  ["config.json", "tokenizer.json", "m.safetensors"].forM fun name => do
    createFile [osString name, osString "b"] (osString name) ""
    setEntry (osString name) [osString "s"] (.link [osString "b", osString name]) ""

def linkedShelf : Tree := (linkedModel.run.run .empty).2

/-- In place it is installed, and its copy has nothing in it. -/
theorem links_not_copied : CacheFor linkedShelf cache cache [osString "s"] ∧
    ∀ sha256 : List UInt8 → String,
      ¬ InstallsAlike sha256 offline cache ⟨"m", .localPath [osString "s"], true, none, "chat", none, 1⟩ linkedShelf := by
  have hreal : linkedShelf.resolve [osString "s"] = some [osString "s"] := by decide +kernel
  have hnames : ∀ name ∈ linkedShelf.names [osString "s"], linkedShelf.lookup [name, osString "s"] ≠ some .dir := by decide +kernel
  have hleaves (name : OsString) : linkedShelf.lookup [name, osString "s"] ≠ some .dir := by
    by_cases hname : name ∈ linkedShelf.names [osString "s"]
    · exact hnames name hname
    · rw [not_not.mp (mt (linkedShelf.mem_names _ _).mpr hname)]
      simp
  have hcache : CacheFor linkedShelf cache cache [osString "s"] := {
    resolves := by decide +kernel
    isDir := by decide +kernel
    empty := by decide +kernel
    accepted := by decide +kernel
    outside := by
      intro real h
      cases hreal.symm.trans h
      decide +kernel
    depth := by
      intro real h rest hrest
      cases hreal.symm.trans h
      exact (length_of_leaves hleaves hrest).trans_lt (by decide) }
  have hmeta : linkedShelf.metadata [osString "s"] = some .dir := by decide +kernel
  have hlink : LinkToFile linkedShelf [osString "s"] (osString "config.json") :=
    ⟨⟨[osString "b", osString "config.json"], by decide +kernel⟩, by decide +kernel⟩
  have hplan : installPlan offline ⟨"m", .localPath [osString "s"], true, none, "chat", none, 1⟩ =
      .ok ⟨"m", .local_, none, ⟨false, none, none, false⟩⟩ := by decide +kernel
  refine ⟨hcache, fun sha256 => ?_⟩
  rw [installsAlike_dir hcache rfl hplan hmeta]
  have hpasses (digest : String) : Passes none digest := fun _ h => by simp at h
  exact fun hspare => (hspare (hpasses _)).sidecars (osString "config.json") List.mem_cons_self hlink

end Llmctl.Install
