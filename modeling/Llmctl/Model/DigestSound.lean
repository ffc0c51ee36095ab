import Llmctl.Model.CacheSound

/-!
# What a digest says of what is loaded

The digest of a directory lists the files that are in it. The loader follows links, and beside
a single file it opens two others. `digest_covers_iff` says when one digest leaves one model.
-/

namespace Llmctl.Install

open Fs

/-! ## Listings -/

theorem nul_inj {x z s t : List UInt8} (hx : 0 ∉ x) (hz : 0 ∉ z) (h : x ++ 0 :: s = z ++ 0 :: t) : x = z ∧ s = t := by
  induction x generalizing z with
  | nil =>
    cases z with
    | nil => exact ⟨rfl, (List.cons.inj h).2⟩
    | cons b z => exact absurd (List.mem_cons.mpr (.inl (List.cons.inj h).1)) hz
  | cons a x ih =>
    cases z with
    | nil => exact absurd (List.mem_cons.mpr (.inl (List.cons.inj h).1.symm)) hx
    | cons b z =>
      obtain ⟨rfl, htail⟩ := List.cons.inj h
      obtain ⟨rfl, hrest⟩ := ih (fun hmem => hx (List.mem_cons_of_mem _ hmem)) (fun hmem => hz (List.mem_cons_of_mem _ hmem)) htail
      exact ⟨rfl, hrest⟩

theorem listing_cons {sha256 : List UInt8 → String} (file : OsString × List UInt8) (files : List (OsString × List UInt8)) :
    listing sha256 (file :: files) = (toStr file.1).getD [] ++ 0 :: (osString (sha256 file.2) ++ 0 :: listing sha256 files) := by
  simp [listing]

section
variable {sha256 : List UInt8 → String} (hhex : ∀ bytes, 0 ∉ osString (sha256 bytes))
include hhex

/-- A listing is read in one way, as no name and no digest has a NUL in it. -/
theorem listing_inj {files files' : List (OsString × List UInt8)} (hnames : ∀ file ∈ files, 0 ∉ file.1)
    (hnames' : ∀ file ∈ files', 0 ∉ file.1) (h : listing sha256 files = listing sha256 files') :
    List.Forall₂ (fun file file' => (toStr file.1).getD [] = (toStr file'.1).getD [] ∧ osString (sha256 file.2) = osString (sha256 file'.2))
      files files' := by
  have hstr {name : OsString} (hname : 0 ∉ name) : 0 ∉ (toStr name).getD [] := by
    unfold toStr
    split
    · exact hname
    · exact List.not_mem_nil
  induction files generalizing files' with
  | nil =>
    cases files' with
    | nil => exact .nil
    | cons file' files' => simp [listing] at h
  | cons file files ih =>
    cases files' with
    | nil => simp [listing] at h
    | cons file' files' =>
      obtain ⟨hname, hnames⟩ := List.forall_mem_cons.mp hnames
      obtain ⟨hname', hnames'⟩ := List.forall_mem_cons.mp hnames'
      rw [listing_cons, listing_cons] at h
      obtain ⟨hstrs, h⟩ := nul_inj (hstr hname) (hstr hname') h
      obtain ⟨hdigests, h⟩ := nul_inj (hhex _) (hhex _) h
      exact .cons ⟨hstrs, hdigests⟩ (ih hnames hnames' h)

end

/-- No two of the byte strings have one digest. -/
def NoCollision (sha256 : List UInt8 → String) (inputs others : List (List UInt8)) : Prop :=
  ∀ a ∈ inputs, ∀ b ∈ others, sha256 a = sha256 b → a = b

/-- The files of two directories that their digests have names of. -/
def SameListed (tree : Tree) (path : Path) (tree' : Tree) (path' : Path) : Prop :=
  ∀ name, name ≠ [] → toStr name = some name →
    ∀ bytes, (name, bytes) ∈ regularFiles tree path ↔ (name, bytes) ∈ regularFiles tree' path'

theorem mem_of_listed {sha256 : List UInt8 → String} {files files' : List (OsString × List UInt8)}
    (h : List.Forall₂ (fun file file' => (toStr file.1).getD [] = (toStr file'.1).getD [] ∧ osString (sha256 file.2) = osString (sha256 file'.2))
      files files')
    (hcollision : NoCollision sha256 (files.map Prod.snd) (files'.map Prod.snd)) {name : OsString} (hne : name ≠ [])
    (hutf8 : toStr name = some name) {bytes : List UInt8} (hmem : (name, bytes) ∈ files) : (name, bytes) ∈ files' := by
  induction h with
  | nil => cases hmem
  | @cons file file' files files' hrel h ih =>
    rcases List.mem_cons.mp hmem with heq | hmem
    · obtain ⟨hname, hdigest⟩ := hrel
      have hbytes := hcollision _ List.mem_cons_self _ List.mem_cons_self (osString_injective hdigest)
      rw [← heq, hutf8, Option.getD_some] at hname
      have hsame : name = file'.1 := by
        cases htext : toStr file'.1 with
        | none => exact absurd (hname.trans (by rw [htext]; rfl)) hne
        | some text => exact hname.trans (by rw [htext, Option.getD_some, Native.eq_of_toStr htext])
      rw [← heq] at hbytes
      exact List.mem_cons.mpr (.inl (Prod.ext hsame hbytes))
    · refine List.mem_cons_of_mem _ (ih (fun a ha b hb => ?_) hmem)
      exact hcollision a (List.mem_cons_of_mem _ ha) b (List.mem_cons_of_mem _ hb)

section
variable {sha256 : List UInt8 → String} (hhex : ∀ bytes, 0 ∉ osString (sha256 bytes)) {tree tree' : Tree} {path path' : Path}
include hhex

theorem sameListed_of_digest (hnames : ∀ entry ∈ tree.readDir path, 0 ∉ entry.1) (hnames' : ∀ entry ∈ tree'.readDir path', 0 ∉ entry.1)
    (hcollision : NoCollision sha256 (listing sha256 (artifactFiles tree path) :: (artifactFiles tree path).map Prod.snd)
      (listing sha256 (artifactFiles tree' path') :: (artifactFiles tree' path').map Prod.snd))
    (hdigest : sha256 (listing sha256 (artifactFiles tree path)) = sha256 (listing sha256 (artifactFiles tree' path'))) :
    SameListed tree path tree' path' := by
  have hmem {tree : Tree} {path : Path} {file : OsString × List UInt8} : file ∈ artifactFiles tree path ↔ file ∈ regularFiles tree path :=
    List.mem_insertionSort _
  have hlisting := hcollision _ List.mem_cons_self _ List.mem_cons_self hdigest
  have hrel := listing_inj hhex (fun file hfile => hnames _ (mem_regularFiles.mp (hmem.mp hfile)))
    (fun file hfile => hnames' _ (mem_regularFiles.mp (hmem.mp hfile))) hlisting
  have hbytes : NoCollision sha256 ((artifactFiles tree path).map Prod.snd) ((artifactFiles tree' path').map Prod.snd) :=
    fun a ha b hb => hcollision a (List.mem_cons_of_mem _ ha) b (List.mem_cons_of_mem _ hb)
  intro name hne hutf8 bytes
  rw [← hmem, ← hmem]
  constructor
  · exact mem_of_listed hrel hbytes hne hutf8
  · exact mem_of_listed (hrel.flip.imp fun _ _ h => ⟨h.1.symm, h.2.symm⟩) (fun a ha b hb h => (hbytes b hb a ha h.symm).symm) hne hutf8

end

/-! ## Two directories -/

/-- Whether a directory has the file of a name itself, and its digest the name. -/
def listed (tree : Tree) (path : Path) (name : OsString) : Bool :=
  (regularFiles tree path).any (fun file => file.1 = name) && (toStr name).isSome

/-- The weights of a directory that its digest does not list. -/
def unlistedWeights (tree : Tree) (path : Path) : List (OsString × Option (List UInt8)) :=
  ((((weightNames tree path).filter fun name => !listed tree path name).map fun name =>
    Native.artifactFileName [name]).insertionSort fun left right => left ≤ right).map fun name => (name, Native.contents tree (name :: path))

/-- What is loaded of a directory, but for what its digest lists. -/
def unlistedFiles (tree : Tree) (path : Path) : Native.LoadedFiles :=
  let sidecar (name : OsString) := if listed tree path name then none else some (name, Native.contents tree (name :: path))
  ⟨unlistedWeights tree path, sidecar (osString "tokenizer.json"), sidecar (osString "config.json")⟩

theorem map_contents_inj {l l' : List OsString} {c c' : OsString → Option (List UInt8)} :
    (l.map fun name => (name, c name)) = (l'.map fun name => (name, c' name)) ↔ l = l' ∧ ∀ name ∈ l, c name = c' name := by
  constructor
  · intro h
    have hnames := congrArg (List.map Prod.fst) h
    simp only [List.map_map, Function.comp_def, List.map_id'] at hnames
    subst hnames
    exact ⟨rfl, fun name hname => (Prod.mk.inj (List.map_inj_left.mp h name hname)).2⟩
  · intro h
    obtain ⟨rfl, hsame⟩ := h
    exact List.map_congr_left fun name hname => by rw [hsame name hname]

theorem sorted_eq_iff {l l' : List OsString} :
    (l.insertionSort fun left right => left ≤ right) = (l'.insertionSort fun left right => left ≤ right) ↔ l.Perm l' := by
  have : Std.Total (fun left right : OsString => left ≤ right) := ⟨fun a b => List.le_total a b⟩
  have : IsTrans OsString (fun left right => left ≤ right) := ⟨fun _ _ _ => List.le_trans⟩
  constructor
  · intro h
    exact (List.perm_insertionSort _ l).symm.trans (h ▸ List.perm_insertionSort _ l')
  · intro h
    exact insertionSort_eq_of_perm h fun _ _ _ _ => List.le_antisymm

section
variable {tree tree' : Tree} {path path' real real' : Path} (hreal : tree.resolve path = some real)
  (hdir : tree.lookup real = some .dir) (hreal' : tree'.resolve path' = some real') (hdir' : tree'.lookup real' = some .dir)
  (hsame : SameListed tree path tree' path') {name : OsString}

theorem listed_iff : listed tree path name = true ↔ toStr name = some name ∧ ∃ bytes, (name, bytes) ∈ regularFiles tree path := by
  rw [listed, Bool.and_eq_true, List.any_eq_true, and_comm]
  refine and_congr ?_ ?_
  · constructor
    · intro h
      obtain ⟨text, htext⟩ := Option.isSome_iff_exists.mp h
      rw [htext, Native.eq_of_toStr htext]
    · intro h
      rw [h]
      rfl
  · constructor
    · intro h
      obtain ⟨⟨other, bytes⟩, hmem, hname⟩ := h
      obtain rfl := of_decide_eq_true hname
      exact ⟨bytes, hmem⟩
    · intro h
      obtain ⟨bytes, hmem⟩ := h
      exact ⟨_, hmem, decide_eq_true rfl⟩

include hreal hdir in
theorem contents_of_regular {bytes : List UInt8} (h : (name, bytes) ∈ regularFiles tree path) :
    Native.contents tree (name :: path) = some bytes := by
  have hentry := (mem_readDir hreal).mp (mem_regularFiles.mp h)
  rw [Native.contents_eq_some_iff, Tree.metadata, Tree.resolve_child hreal hdir, Option.bind_some]
  · exact hentry
  · rw [hentry]
    simp

include hreal hdir in
theorem ne_nil_of_weight (h : name ∈ weightNames tree path) : name ≠ [] := by
  rintro rfl
  have hformat : Native.NativeModelFormat.fromPath [[]] ≠ .safetensors := by decide +kernel
  rw [mem_weightNames hreal hdir, Native.isWeightFile, Bool.and_eq_true] at h
  exact hformat (of_decide_eq_true h.2)

include hsame in
theorem SameListed.listed_eq (hne : name ≠ []) : listed tree path name = listed tree' path' name := by
  rw [Bool.eq_iff_iff, listed_iff, listed_iff]
  exact and_congr_right fun hutf8 => exists_congr fun bytes => hsame name hne hutf8 bytes

include hreal hdir hreal' hdir' hsame

theorem SameListed.contents_eq (hne : name ≠ []) (h : listed tree path name = true) :
    Native.contents tree (name :: path) = Native.contents tree' (name :: path') := by
  obtain ⟨hutf8, bytes, hmem⟩ := listed_iff.mp h
  rw [contents_of_regular hreal hdir hmem, contents_of_regular hreal' hdir' ((hsame name hne hutf8 bytes).mp hmem)]

theorem SameListed.listedWeights (h : name ∈ weightNames tree path ∧ listed tree path name = true) :
    name ∈ weightNames tree' path' ∧ listed tree' path' name = true := by
  obtain ⟨hweight, hlisted⟩ := h
  have hne := ne_nil_of_weight hreal hdir hweight
  rw [mem_weightNames hreal hdir, Native.isWeightFile, Bool.and_eq_true, ← Native.contents_ne_none_iff] at hweight
  rw [mem_weightNames hreal' hdir', Native.isWeightFile, Bool.and_eq_true, ← Native.contents_ne_none_iff]
  rw [← hsame.contents_eq hreal hdir hreal' hdir' hne hlisted, ← hsame.listed_eq hne]
  exact ⟨hweight, hlisted⟩

end

section
variable {tree tree' : Tree} {path path' real real' : Path} (hreal : tree.resolve path = some real)
  (hdir : tree.lookup real = some .dir) (hreal' : tree'.resolve path' = some real') (hdir' : tree'.lookup real' = some .dir)
  (hsame : SameListed tree path tree' path')
include hreal hdir hreal' hdir' hsame

theorem SameListed.weights_iff :
    loadedWeights tree path = loadedWeights tree' path' ↔ unlistedWeights tree path = unlistedWeights tree' path' := by
  have hsame' : SameListed tree' path' tree path := fun name hne hutf8 bytes => (hsame name hne hutf8 bytes).symm
  rw [loadedWeights, loadedWeights, safetensorsWeightFiles_dir (isDir_of_resolve hreal hdir),
    safetensorsWeightFiles_dir (isDir_of_resolve hreal' hdir'), map_contents_inj, sorted_eq_iff, unlistedWeights, unlistedWeights,
    map_contents_inj, sorted_eq_iff]
  have hlisted : ((weightNames tree path).filter (listed tree path)).Perm ((weightNames tree' path').filter (listed tree' path')) := by
    refine (List.perm_ext_iff_of_nodup (nodup_weightNames.filter _) (nodup_weightNames.filter _)).mpr fun name => ?_
    rw [List.mem_filter, List.mem_filter]
    exact ⟨hsame.listedWeights hreal hdir hreal' hdir', hsame'.listedWeights hreal' hdir' hreal hdir⟩
  have hsplit {tree : Tree} {path : Path} (f : OsString → OsString) : ((weightNames tree path).map f).Perm
      (((weightNames tree path).filter (listed tree path)).map f ++
        ((weightNames tree path).filter fun name => !listed tree path name).map f) := by
    rw [← List.map_append]
    exact ((List.filter_append_perm (listed tree path) (weightNames tree path)).map f).symm
  refine and_congr ?_ ⟨fun h name hname => ?_, fun h name hname => ?_⟩
  · rw [(hsplit _).congr_left, (hsplit _).congr_right, (hlisted.map _).append_right _ |>.congr_left, List.perm_append_left_iff]
  · rw [List.mem_insertionSort] at hname
    obtain ⟨entry, hentry, rfl⟩ := List.mem_map.mp hname
    exact h _ ((List.mem_insertionSort _).mpr (List.mem_map.mpr ⟨entry, (List.mem_filter.mp hentry).1, rfl⟩))
  · rw [List.mem_insertionSort] at hname
    obtain ⟨entry, hentry, rfl⟩ := List.mem_map.mp hname
    by_cases hlist : listed tree path entry = true
    · have hne := ne_nil_of_weight hreal hdir hentry
      have hutf8 := (listed_iff.mp hlist).1
      rw [Native.artifactFileName, List.head?_cons, Option.bind_some, hutf8, Option.getD_some]
      exact hsame.contents_eq hreal hdir hreal' hdir' hne hlist
    · refine h _ ((List.mem_insertionSort _).mpr (List.mem_map.mpr ⟨entry, List.mem_filter.mpr ⟨hentry, ?_⟩, rfl⟩))
      simpa using hlist

theorem SameListed.sidecar_iff {name : OsString} (hne : name ≠ []) :
    some (name, Native.contents tree (name :: path)) = some (name, Native.contents tree' (name :: path')) ↔
      (if listed tree path name then none else some (name, Native.contents tree (name :: path))) =
        if listed tree' path' name then none else some (name, Native.contents tree' (name :: path')) := by
  rw [← hsame.listed_eq hne]
  by_cases hlist : listed tree path name = true
  · rw [if_pos hlist, if_pos hlist, hsame.contents_eq hreal hdir hreal' hdir' hne hlist]
    exact iff_of_true rfl rfl
  · rw [if_neg hlist, if_neg hlist]

theorem SameListed.files_iff :
    Native.filesIn tree path (Native.safetensorsWeightFiles tree path path) =
        Native.filesIn tree' path' (Native.safetensorsWeightFiles tree' path' path') ↔
      unlistedFiles tree path = unlistedFiles tree' path' := by
  rw [Native.filesIn, Native.filesIn, Native.LoadedFiles.mk.injEq, unlistedFiles, unlistedFiles, Native.LoadedFiles.mk.injEq]
  refine and_congr (hsame.weights_iff hreal hdir hreal' hdir') (and_congr ?_ ?_)
  · exact hsame.sidecar_iff hreal hdir hreal' hdir' (by decide +kernel)
  · exact hsame.sidecar_iff hreal hdir hreal' hdir' (by decide +kernel)

end

/-! ## Single files -/

/-- What is loaded of a file with these bytes, and of the files beside it. By a name that is no UTF-8 another file is opened. -/
def loadedBeside (tree : Tree) (path : Path) (bytes : Option (List UInt8)) : Native.LoadedFiles :=
  let weight :=
    if (path.head?.bind toStr).isSome then (Native.artifactFileName path, bytes)
    else (Native.unnamed, Native.contents tree (Native.unnamed :: path.tail))
  { Native.filesIn tree path.tail [] with weights := [weight] }

section
variable {tree tree' : Tree} {path path' : Path} {bytes : List UInt8}

theorem filesIn_beside (hfile : tree.metadata path = some (.file bytes)) :
    Native.filesIn tree path.tail [Native.artifactFileName path] = loadedBeside tree path (some bytes) := by
  cases path with
  | nil =>
    rw [Tree.metadata, Tree.resolve_dir tree.root, Option.bind_some, tree.root] at hfile
    cases hfile
  | cons name dir =>
    rw [loadedBeside, Native.filesIn, Native.artifactFileName, List.head?_cons, Option.bind_some]
    cases hutf8 : toStr name with
    | none => rfl
    | some text =>
      obtain rfl := Native.eq_of_toStr hutf8
      simp [Native.contents_eq_some_iff.mpr hfile, Native.filesIn]

theorem artifactFileName_ne (hformat : Native.NativeModelFormat.fromPath path = .safetensors) (hutf8 : (path.head?.bind toStr).isSome = true) :
    Native.artifactFileName path ≠ Native.unnamed := by
  obtain ⟨text, htext⟩ := Option.isSome_iff_exists.mp hutf8
  obtain ⟨name, hname, hstr⟩ := Option.bind_eq_some_iff.mp htext
  intro heq
  rw [Native.artifactFileName, htext, Option.getD_some, Native.eq_of_toStr hstr] at heq
  have hunnamed : Native.NativeModelFormat.fromPath [Native.unnamed] ≠ .safetensors := by decide +kernel
  refine hunnamed ?_
  rw [← hformat, Native.NativeModelFormat.fromPath, Native.NativeModelFormat.fromPath, hname, heq, List.head?_cons]

/-- The bytes of two files tell nothing of their names. -/
theorem loadedBeside_iff (hformat : Native.NativeModelFormat.fromPath path = .safetensors)
    (hformat' : Native.NativeModelFormat.fromPath path' = .safetensors) :
    loadedBeside tree path (some bytes) = loadedBeside tree' path' (some bytes) ↔ loadedBeside tree path none = loadedBeside tree' path' none := by
  have hne := artifactFileName_ne hformat
  have hne' := artifactFileName_ne hformat'
  rw [loadedBeside, loadedBeside, loadedBeside, loadedBeside]
  by_cases hutf8 : (path.head?.bind toStr).isSome = true
  · by_cases hutf8' : (path'.head?.bind toStr).isSome = true
    · simp [Native.filesIn, hutf8, hutf8']
    · simp [Native.filesIn, hutf8, hutf8', hne hutf8]
  · by_cases hutf8' : (path'.head?.bind toStr).isSome = true
    · simp [Native.filesIn, hutf8, hutf8', (hne' hutf8').symm]
    · simp [Native.filesIn, hutf8, hutf8']

end

/-! ## When a digest covers what is loaded -/

/-- The bytes that digests are taken of. -/
def hashed (sha256 : List UInt8 → String) (tree : Tree) (path : Path) : List (List UInt8) :=
  if tree.isDir path then listing sha256 (artifactFiles tree path) :: (artifactFiles tree path).map Prod.snd
  else (Native.contents tree path).toList

/-- What two artifacts of one digest load is the same, but for what the digest covers. Of two
directories it covers what is listed, and of two files their bytes. What a directory loads is
that of a file if its one weight file has its listing in it. -/
def AlikeUncovered (sha256 : List UInt8 → String) (tree : Tree) (path : Path) (tree' : Tree) (path' : Path) : Prop :=
  let loadedDir (tree : Tree) (path : Path) := Native.filesIn tree path (Native.safetensorsWeightFiles tree path path)
  if tree.isDir path then
    if tree'.isDir path' then unlistedFiles tree path = unlistedFiles tree' path'
    else loadedDir tree path = loadedBeside tree' path' (some (listing sha256 (artifactFiles tree path)))
  else if tree'.isDir path' then loadedBeside tree path (some (listing sha256 (artifactFiles tree' path'))) = loadedDir tree' path'
  else loadedBeside tree path none = loadedBeside tree' path' none

section
variable {sha256 : List UInt8 → String} {tree : Tree} {model : ModelConfig} {family : Native.CandleModelFamily} {files : Native.LoadedFiles}
  {digest : String} (hformat : Native.inferNativeArtifactFormat tree model.path = .safetensors)
include hformat

theorem filesIn_of_selected (h : Native.selectedFiles tree family model = some files) :
    files = Native.filesIn tree (Native.safetensorsArtifactDir tree model.path)
      (Native.safetensorsWeightFiles tree model.path (Native.safetensorsArtifactDir tree model.path)) := by
  obtain ⟨artifacts, hvalid, rfl⟩ := Option.map_eq_some_iff.mp h
  rw [Native.validateCandleModelArtifacts, hformat] at hvalid
  dsimp only at hvalid
  split at hvalid
  · unfold Native.validateSafetensorsArtifacts at hvalid
    dsimp only at hvalid
    cases hmissing : Native.failMissingArtifacts family model .safetensors _ with
    | error e =>
      rw [hmissing] at hvalid
      cases hvalid
    | ok =>
      rw [hmissing] at hvalid
      obtain rfl := Option.some.inj hvalid
      rfl
  · cases hvalid

/-- An artifact with a digest is a directory that has a listing, or a file. -/
theorem digest_cases (hdigest : sha256ModelArtifact sha256 tree model.path = .ok digest)
    (h : Native.selectedFiles tree family model = some files) :
    (tree.metadata model.path = some .dir ∧ digest = sha256 (listing sha256 (artifactFiles tree model.path)) ∧
        files = Native.filesIn tree model.path (Native.safetensorsWeightFiles tree model.path model.path)) ∨
      ∃ bytes, tree.metadata model.path = some (.file bytes) ∧ digest = sha256 bytes ∧ Native.NativeModelFormat.fromPath model.path = .safetensors ∧
        files = loadedBeside tree model.path (some bytes) := by
  have hfiles := filesIn_of_selected hformat h
  cases hmeta : tree.metadata model.path with
  | none =>
    rw [sha256ModelArtifact, hmeta] at hdigest
    cases hdigest
  | some entry =>
    cases entry with
    | link target =>
      obtain ⟨real, hreal, hlink⟩ := Option.bind_eq_some_iff.mp hmeta
      exact absurd hlink (Tree.resolve_not_link hreal target)
    | dir =>
      have hdir : tree.isDir model.path = true := by rw [Tree.isDir, hmeta]; rfl
      rw [Native.safetensorsArtifactDir_dir hdir] at hfiles
      cases hlayout : ensureSafetensorsLayout tree model.path with
      | error e =>
        rw [sha256ModelArtifact, hmeta, hlayout] at hdigest
        cases hdigest
      | ok =>
        rw [sha256ModelArtifact_dir sha256 hmeta hlayout] at hdigest
        exact .inl ⟨rfl, (Except.ok.inj hdigest).symm, hfiles⟩
    | file bytes =>
      have hfile : tree.isFile model.path = true := by rw [Tree.isFile, hmeta]
      rw [sha256ModelArtifact_file sha256 hmeta] at hdigest
      have hpath := (Native.inferNativeArtifactFormat_file hfile).symm.trans hformat
      have hweights : Native.isWeightFile tree model.path = true := by
        rw [Native.isWeightFile, hfile, hpath]
        rfl
      rw [Native.safetensorsArtifactDir, Native.isDir_of_isFile hfile, if_neg Bool.false_ne_true, Native.safetensorsWeightFiles,
        if_pos hweights, filesIn_beside hmeta] at hfiles
      exact .inr ⟨bytes, rfl, (Except.ok.inj hdigest).symm, hpath, hfiles⟩

end

/-- Two artifacts of one digest load the same files exactly where they do of what it does not cover. -/
theorem digest_covers_iff {sha256 : List UInt8 → String} {tree tree' : Tree} {model model' : ModelConfig}
    {family family' : Native.CandleModelFamily} {files files' : Native.LoadedFiles} {digest : String}
    (hformat : Native.inferNativeArtifactFormat tree model.path = .safetensors)
    (hformat' : Native.inferNativeArtifactFormat tree' model'.path = .safetensors)
    (hselected : Native.selectedFiles tree family model = some files) (hselected' : Native.selectedFiles tree' family' model' = some files')
    (hdigest : sha256ModelArtifact sha256 tree model.path = .ok digest) (hdigest' : sha256ModelArtifact sha256 tree' model'.path = .ok digest)
    (hcollision : NoCollision sha256 (hashed sha256 tree model.path) (hashed sha256 tree' model'.path))
    (hhex : ∀ bytes, 0 ∉ osString (sha256 bytes)) (hnames : ∀ entry ∈ tree.readDir model.path, 0 ∉ entry.1)
    (hnames' : ∀ entry ∈ tree'.readDir model'.path, 0 ∉ entry.1) :
    files = files' ↔ AlikeUncovered sha256 tree model.path tree' model'.path := by
  have hdir {tree : Tree} {path : Path} (hmeta : tree.metadata path = some .dir) : tree.isDir path = true := by
    rw [Tree.isDir, hmeta]
    rfl
  have hnot {tree : Tree} {path : Path} {bytes : List UInt8} (hmeta : tree.metadata path = some (.file bytes)) : tree.isDir path = false := by
    rw [Tree.isDir, hmeta]
    rfl
  have hbytes {tree : Tree} {path : Path} {bytes : List UInt8} (hmeta : tree.metadata path = some (.file bytes)) :
      hashed sha256 tree path = [bytes] := by
    rw [hashed, hnot hmeta, if_neg Bool.false_ne_true, Native.contents_eq_some_iff.mpr hmeta]
    rfl
  have hlisting {tree : Tree} {path : Path} (hmeta : tree.metadata path = some .dir) : hashed sha256 tree path =
      listing sha256 (artifactFiles tree path) :: (artifactFiles tree path).map Prod.snd := by
    rw [hashed, hdir hmeta, if_pos rfl]
  rcases digest_cases hformat hdigest hselected with ⟨hmeta, rfl, rfl⟩ | ⟨bytes, hmeta, rfl, hpath, rfl⟩
  · rcases digest_cases hformat' hdigest' hselected' with ⟨hmeta', hsame, rfl⟩ | ⟨bytes', hmeta', hsame, hpath', rfl⟩
    · rw [AlikeUncovered, hdir hmeta, hdir hmeta', if_pos rfl, if_pos rfl]
      obtain ⟨real, hreal, hentry⟩ := Option.bind_eq_some_iff.mp hmeta
      obtain ⟨real', hreal', hentry'⟩ := Option.bind_eq_some_iff.mp hmeta'
      rw [hlisting hmeta, hlisting hmeta'] at hcollision
      exact (sameListed_of_digest hhex hnames hnames' hcollision hsame).files_iff hreal hentry hreal' hentry'
    · rw [hlisting hmeta, hbytes hmeta'] at hcollision
      obtain rfl := hcollision _ List.mem_cons_self _ List.mem_cons_self hsame
      rw [AlikeUncovered, hdir hmeta, hnot hmeta']
      rfl
  · rcases digest_cases hformat' hdigest' hselected' with ⟨hmeta', hsame, rfl⟩ | ⟨bytes', hmeta', hsame, hpath', rfl⟩
    · rw [hbytes hmeta, hlisting hmeta'] at hcollision
      obtain rfl := hcollision _ List.mem_cons_self _ List.mem_cons_self hsame
      rw [AlikeUncovered, hnot hmeta, hdir hmeta']
      rfl
    · rw [hbytes hmeta, hbytes hmeta'] at hcollision
      obtain rfl := hcollision _ List.mem_cons_self _ List.mem_cons_self hsame
      rw [AlikeUncovered, hnot hmeta, hnot hmeta']
      exact loadedBeside_iff hpath hpath'

/-! ### Two directories with the same files -/

def modelNames : List String := ["config.json", "tokenizer.json", "m.safetensors"]

/-- Directories with files of one letter each. -/
def twinModels : FsM Unit :=
  ["s", "t"].forM fun dir => do
    createDir [osString dir] ""
    modelNames.forM fun name => createFile [osString name, osString dir] ((osString name).take 1) ""

def twinShelf : Tree := (twinModels.run.run .empty).2

def localModel (dir : String) : ModelConfig := ⟨dir, [osString dir], "chat", none, 1⟩

/-- SHA-256 on the files and the listing of the twins. -/
def twinDigests : List (List UInt8 × String) :=
  [(osString "c", "2e7d2c03a9507ae265ecf5b5356885a53393a2029d241394997265a1a25aefc6"),
    (osString "m", "62c66a7a5dd70c3146618063c344e531e6d4b59e379808443ce962b3abd63c5a"),
    (osString "t", "e3b98a4da31a127d4bde6e43033f66ba274cab0eb7eb1c70ec41402bf6273dd8"),
    (osString ("config.json\x002e7d2c03a9507ae265ecf5b5356885a53393a2029d241394997265a1a25aefc6\x00" ++
      "m.safetensors\x0062c66a7a5dd70c3146618063c344e531e6d4b59e379808443ce962b3abd63c5a\x00" ++
      "tokenizer.json\x00e3b98a4da31a127d4bde6e43033f66ba274cab0eb7eb1c70ec41402bf6273dd8\x00"), "c0f6e5e9458332da5c0865b1ed5baedcd8ebd13fdd847ff8870093d75283fca5")]

def twinSha256 (bytes : List UInt8) : String := (twinDigests.lookup bytes).getD ""

theorem twinSha256_hex (bytes : List UInt8) : 0 ∉ osString (twinSha256 bytes) := by
  have hall : ∀ p ∈ twinDigests, 0 ∉ osString p.2 := by decide +kernel
  have hempty : 0 ∉ osString "" := by decide +kernel
  unfold twinSha256
  cases hlookup : twinDigests.lookup bytes with
  | none => exact hempty
  | some digest =>
    obtain ⟨l, l', hsplit, -⟩ := List.lookup_eq_some_iff.mp hlookup
    exact hall (bytes, digest) (by simp [hsplit])

theorem twins_covered : Native.filesIn twinShelf [osString "s"] [osString "m.safetensors"] =
    Native.filesIn twinShelf [osString "t"] [osString "m.safetensors"] := by
  have hformat : ∀ dir ∈ ["s", "t"], Native.inferNativeArtifactFormat twinShelf (localModel dir).path = .safetensors := by decide +kernel
  have hselected : ∀ dir ∈ ["s", "t"], Native.selectedFiles twinShelf .qwen3 (localModel dir) =
      some (Native.filesIn twinShelf [osString dir] [osString "m.safetensors"]) := by decide +kernel
  have hdigest : ∀ dir ∈ ["s", "t"], sha256ModelArtifact twinSha256 twinShelf (localModel dir).path =
      .ok "c0f6e5e9458332da5c0865b1ed5baedcd8ebd13fdd847ff8870093d75283fca5" := by decide +kernel
  have hnames : ∀ dir ∈ ["s", "t"], ∀ entry ∈ twinShelf.readDir (localModel dir).path, 0 ∉ entry.1 := by decide +kernel
  have hs : "s" ∈ ["s", "t"] := List.mem_cons_self
  have ht : "t" ∈ ["s", "t"] := List.mem_cons_of_mem _ List.mem_cons_self
  have hcollision : NoCollision twinSha256 (hashed twinSha256 twinShelf (localModel "s").path) (hashed twinSha256 twinShelf (localModel "t").path) := by
    unfold NoCollision
    decide +kernel
  refine (digest_covers_iff (hformat _ hs) (hformat _ ht) (hselected _ hs) (hselected _ ht) (hdigest _ hs) (hdigest _ ht) hcollision
    twinSha256_hex (hnames _ hs) (hnames _ ht)).mpr ?_
  unfold AlikeUncovered
  decide +kernel

/-! ### Two directories of links -/

def linkedModels : FsM Unit := do
  createDir [osString "b"] ""
  ["s", "t"].forM fun dir => do
    createDir [osString dir] ""
    modelNames.forM fun name => do
      createFile [osString (dir ++ name), osString "b"] (osString dir) ""
      setEntry (osString name) [osString dir] (.link [osString "b", osString (dir ++ name)]) ""

def linkedModelShelf : Tree := (linkedModels.run.run .empty).2

/-- They have one digest, and nothing that is loaded of them is the same. -/
theorem links_not_hashed :
    Native.selectedFiles linkedModelShelf .qwen3 (localModel "s") =
        some (Native.filesIn linkedModelShelf [osString "s"] [osString "m.safetensors"]) ∧
      Native.selectedFiles linkedModelShelf .qwen3 (localModel "t") =
        some (Native.filesIn linkedModelShelf [osString "t"] [osString "m.safetensors"]) ∧
      (∀ sha256 : List UInt8 → String,
        sha256ModelArtifact sha256 linkedModelShelf (localModel "s").path = .ok (sha256 []) ∧
          sha256ModelArtifact sha256 linkedModelShelf (localModel "t").path = .ok (sha256 []) ∧
          NoCollision sha256 (hashed sha256 linkedModelShelf (localModel "s").path)
            (hashed sha256 linkedModelShelf (localModel "t").path)) ∧
      Native.filesIn linkedModelShelf [osString "s"] [osString "m.safetensors"] ≠
        Native.filesIn linkedModelShelf [osString "t"] [osString "m.safetensors"] := by
  refine ⟨by decide +kernel, by decide +kernel, fun sha256 => ?_, by decide +kernel⟩
  have hmeta : ∀ dir ∈ ["s", "t"], linkedModelShelf.metadata (localModel dir).path = some .dir := by decide +kernel
  have hlayout : ∀ dir ∈ ["s", "t"], ensureSafetensorsLayout linkedModelShelf (localModel dir).path = .ok () := by decide +kernel
  have hfiles : ∀ dir ∈ ["s", "t"], artifactFiles linkedModelShelf (localModel dir).path = [] := by decide +kernel
  have hdir : ∀ dir ∈ ["s", "t"], linkedModelShelf.isDir (localModel dir).path = true := by decide +kernel
  have hs : "s" ∈ ["s", "t"] := List.mem_cons_self
  have ht : "t" ∈ ["s", "t"] := List.mem_cons_of_mem _ List.mem_cons_self
  have hdigest : ∀ dir ∈ ["s", "t"], sha256ModelArtifact sha256 linkedModelShelf (localModel dir).path = .ok (sha256 []) := by
    intro dir hmem
    rw [sha256ModelArtifact_dir sha256 (hmeta dir hmem) (hlayout dir hmem), hfiles dir hmem]
    rfl
  have hhashed : ∀ dir ∈ ["s", "t"], hashed sha256 linkedModelShelf (localModel dir).path = [[]] := by
    intro dir hmem
    rw [hashed, hdir dir hmem, if_pos rfl, hfiles dir hmem]
    rfl
  refine ⟨hdigest _ hs, hdigest _ ht, ?_⟩
  rw [hhashed _ hs, hhashed _ ht]
  intro a ha b hb _
  rw [List.mem_singleton.mp ha, List.mem_singleton.mp hb]

end Llmctl.Install
