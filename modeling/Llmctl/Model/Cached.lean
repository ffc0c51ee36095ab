import Llmctl.Model.Links

/-!
# Copies into an empty cache

What `registerLocalModel` leaves for a file, for a safetensors file and for a directory.
-/

namespace Llmctl.Install

open Fs

/-- The cache is an empty directory, outside of an artifact that is taken. -/
structure CacheFor (tree : Tree) (cacheDir cacheReal path : Path) : Prop where
  resolves : tree.resolve cacheDir = some cacheReal
  isDir : tree.lookup cacheReal = some .dir
  empty : tree.names cacheReal = []
  accepted : ensureSupportedArtifactPath tree path = .ok ()
  outside : ∀ real, tree.resolve path = some real → ¬ real <:+ cacheReal
  /-- The system refuses no path of the copy for its depth. -/
  depth : ∀ real, tree.resolve path = some real → ∀ rest, tree.lookup (rest ++ real) ≠ none → rest.length < maxDepth

section
variable {tree : Tree} {cacheDir cacheReal path : Path} (h : CacheFor tree cacheDir cacheReal path)
include h

theorem CacheFor.new (name : OsString) : tree.lookup (name :: cacheReal) = none := by
  by_contra hsome
  have hmem := (tree.mem_names name cacheReal).mpr hsome
  rw [h.empty] at hmem
  cases hmem

theorem CacheFor.path_eq : ∃ filename parent, path = filename :: parent := by
  cases path with
  | nil => exact absurd (List.nil_suffix) (h.outside [] rfl)
  | cons filename parent => exact ⟨filename, parent, rfl⟩

theorem CacheFor.runs_createDirAll {error : String} : Runs (createDirAll error cacheDir) tree (.ok ()) tree :=
  runs_createDirAll_of_isDir (isDir_of_resolve h.resolves h.isDir)

theorem CacheFor.uniqueDestination_eq (filename : OsString) : uniqueDestination tree cacheDir [filename] = filename :: cacheDir := by
  have hnone : tree.isPresent (filename :: cacheDir) = false := by
    rw [Tree.isPresent, metadata_new h.resolves h.isDir (h.new filename)]
    rfl
  unfold uniqueDestination
  change (if (!tree.isPresent (filename :: cacheDir)) = true then filename :: cacheDir else _) = _
  rw [hnone]
  rfl

/-- What is not copied stays where it is. -/
theorem CacheFor.runs_inPlace : Runs (registerLocalModel path cacheDir false) tree (.ok path) tree :=
  (runs_liftResult_ok h.accepted).bind (runs_pure ..)

end

section
variable {tree : Tree} {cacheDir cacheReal parent : Path} {filename : OsString} (h : CacheFor tree cacheDir cacheReal (filename :: parent))
include h

/-- A directory becomes a copy of it. -/
theorem CacheFor.runs_dir {real : Path} (hreal : tree.resolve (filename :: parent) = some real) (hdir : tree.lookup real = some .dir) :
    ∃ tree', Runs (registerLocalModel (filename :: parent) cacheDir true) tree (.ok (filename :: cacheDir)) tree' ∧
      Copied (filename :: parent) real (filename :: cacheDir) (filename :: cacheReal) tree tree' := by
  have hcopyable : Copyable maxDepth (filename :: parent) real filename cacheDir cacheReal tree := {
    source := hreal
    isDir := hdir
    parent := h.resolves
    parentDir := h.isDir
    new := h.new filename
    outside := by
      intro hsuffix
      rcases List.suffix_cons_iff.mp hsuffix with rfl | hsuffix
      · rw [h.new] at hdir
        cases hdir
      · exact h.outside real hreal hsuffix
    depth := h.depth real hreal }
  obtain ⟨tree', hruns, hcopy⟩ := copiesAt maxDepth hcopyable
  have htop : tree'.lookup (filename :: cacheReal) = some .dir := by
    have hbelow := hcopy.below []
    rw [List.nil_append, List.nil_append, hdir] at hbelow
    exact hbelow
  refine ⟨tree', ?_, ⟨hreal, hdir, ?_, hcopy.below⟩⟩
  · refine runs_get ((runs_liftResult_ok h.accepted).bind ?_)
    refine h.runs_createDirAll.bind (runs_get ?_)
    dsimp only
    rw [h.uniqueDestination_eq, if_pos (isDir_of_resolve hreal hdir)]
    exact hruns.bind (runs_pure ..)
  · refine Tree.resolve_child (hcopy.kept.resolve (h.new filename) h.resolves h.isDir) (hcopy.kept.lookup (h.new filename) h.isDir) ?_
    simp [htop]

/-- A file is copied. -/
theorem CacheFor.runs_file {bytes : List UInt8} (hfile : tree.metadata (filename :: parent) = some (.file bytes))
    (hname : isSafetensorsPath (filename :: parent) = false) :
    ∃ tree', Runs (registerLocalModel (filename :: parent) cacheDir true) tree (.ok (filename :: cacheDir)) tree' ∧
      tree'.metadata (filename :: cacheDir) = some (.file bytes) := by
  have hkept : KeptBut (filename :: cacheReal) tree (tree.set filename cacheReal (.file bytes) h.isDir (ne_dir_of_new (h.new filename))) :=
    keptBut_set
  refine ⟨tree.set filename cacheReal (.file bytes) h.isDir (ne_dir_of_new (h.new filename)), ?_, ?_⟩
  · have hnot : tree.isDir (filename :: parent) = false := by
      rw [Tree.isDir, hfile]
      rfl
    refine runs_get ((runs_liftResult_ok h.accepted).bind ?_)
    refine h.runs_createDirAll.bind (runs_get ?_)
    dsimp only
    rw [h.uniqueDestination_eq, hnot, hname, if_neg Bool.false_ne_true, if_neg Bool.false_ne_true]
    exact (runs_copyFile_new h.resolves h.isDir (h.new filename) hfile).bind (runs_pure ..)
  · rw [Tree.metadata, Tree.resolve_child (hkept.resolve (h.new filename) h.resolves h.isDir) (hkept.lookup (h.new filename) h.isDir),
      Option.bind_some, Tree.lookup_set]
    simp [Tree.lookup_set]

end

/-! ## Safetensors files -/

def bytesIn (tree : Tree) (dir : Path) (name : OsString) : List UInt8 := (Native.contents tree (name :: dir)).getD []

theorem metadata_of_isFile {tree : Tree} {dir : Path} {name : OsString} (h : tree.isFile (name :: dir) = true) :
    tree.metadata (name :: dir) = some (.file (bytesIn tree dir name)) := by
  obtain ⟨bytes, hbytes⟩ := Option.ne_none_iff_exists'.mp (Native.contents_ne_none_iff.mpr h)
  rw [bytesIn, hbytes]
  exact Native.contents_eq_some_iff.mp hbytes

/-- Files beside each other are copied into a new directory, one after the other. -/
theorem runs_copyFiles {tree mid : Tree} {parent destination top : Path} (error : OsString → String) {todo : List OsString}
    (hnodup : todo.Nodup) (hsource : ∀ name ∈ todo, tree.isFile (name :: parent) = true) (hnew : tree.lookup top = none)
    (hkept : KeptBut top tree mid) (hdestination : mid.resolve destination = some top) (htop : mid.lookup top = some .dir)
    (hfree : ∀ name ∈ todo, mid.lookup (name :: top) = none) :
    ∃ tree', Runs (todo.forM fun name => copyFile (name :: parent) (name :: destination) (error name)) mid (.ok ()) tree' ∧
      KeptBut top tree tree' ∧ tree'.resolve destination = some top ∧ tree'.lookup top = some .dir ∧
      ∀ name, tree'.lookup (name :: top) = if name ∈ todo then some (.file (bytesIn tree parent name)) else mid.lookup (name :: top) := by
  induction todo generalizing mid with
  | nil => exact ⟨mid, runs_pure .., hkept, hdestination, htop, fun _ => (if_neg List.not_mem_nil).symm⟩
  | cons first todo ih =>
    rw [List.nodup_cons] at hnodup
    have hfirst := hfree first List.mem_cons_self
    have hfile := hkept.metadata hnew (metadata_of_isFile (hsource first List.mem_cons_self))
    have hnext : KeptBut (first :: top) mid (mid.set first top (.file (bytesIn tree parent first)) htop (ne_dir_of_new hfirst)) := keptBut_set
    have hother {name : OsString} (hne : name ≠ first) :
        (mid.set first top (.file (bytesIn tree parent first)) htop (ne_dir_of_new hfirst)).lookup (name :: top) =
          mid.lookup (name :: top) :=
      Tree.lookup_set_of_ne fun he => hne (List.cons.inj he).1
    have hfree' : ∀ name ∈ todo,
        (mid.set first top (.file (bytesIn tree parent first)) htop (ne_dir_of_new hfirst)).lookup (name :: top) = none := by
      intro name hname
      rw [hother fun he => hnodup.1 (he ▸ hname)]
      exact hfree name (List.mem_cons_of_mem _ hname)
    obtain ⟨tree', hruns, hkept', hdestination', htop', hfiles⟩ := ih hnodup.2 (fun name hname => hsource name (List.mem_cons_of_mem _ hname))
      (hkept.trans (hnext.mono (List.suffix_cons _ _))) (hnext.resolve hfirst hdestination htop) (hnext.lookup hfirst htop) hfree'
    refine ⟨tree', (runs_copyFile_new hdestination htop hfirst hfile).bind hruns, hkept', hdestination', htop', fun name => ?_⟩
    rw [hfiles]
    by_cases hname : name = first
    · subst hname
      rw [if_neg hnodup.1, if_pos List.mem_cons_self, Tree.lookup_set]
    · rw [hother hname]
      simp [hname]

theorem ensureSafetensorsFileLayout_ok_iff {tree : Tree} (path : Path) : ensureSafetensorsFileLayout tree path = .ok () ↔
    ∀ sidecar ∈ sidecars, tree.isFile (sidecar :: path.tail) = true := by
  have hfind : sidecars.find? (fun required => !tree.isFile (required :: path.tail)) = none ↔
      ∀ sidecar ∈ sidecars, tree.isFile (sidecar :: path.tail) = true := by
    simp [List.find?_eq_none]
  rw [← hfind, ensureSafetensorsFileLayout]
  cases sidecars.find? fun required => !tree.isFile (required :: path.tail) with
  | none => exact iff_of_true rfl rfl
  | some required => exact iff_of_false (by simp) (by simp)

theorem accepted_file_iff {tree : Tree} {path : Path} {bytes : List UInt8} (hfile : tree.metadata path = some (.file bytes)) :
    ensureSupportedArtifactPath tree path = .ok () ↔ ∃ name, path.head?.bind toStr = some name ∧ ensureSupportedModelName name = .ok () ∧
      (isSafetensorsPath path = true → ensureSafetensorsFileLayout tree path = .ok ()) := by
  rw [ensureSupportedArtifactPath, hfile]
  dsimp only
  constructor
  · intro haccepted
    split at haccepted
    · cases haccepted
    · rename_i name hname
      obtain ⟨_, hsupported, hlayout⟩ := ok_of_bind haccepted
      exact ⟨name, hname, hsupported, fun hsafetensors => by rwa [if_pos hsafetensors] at hlayout⟩
  · intro haccepted
    obtain ⟨name, hname, hsupported, hlayout⟩ := haccepted
    rw [hname]
    dsimp only
    rw [hsupported]
    change (if isSafetensorsPath path = true then _ else _) = _
    split
    · exact hlayout ‹_›
    · rfl

theorem exists_stem (filename : OsString) : ∃ stem, ∀ dir, withExtension [] (filename :: dir) = stem :: dir := by
  refine ⟨(fileStem filename).getD filename, fun dir => ?_⟩
  rw [withExtension]
  cases fileStem filename with
  | some stem => rfl
  | none => rfl

theorem not_sidecar {path : Path} {filename : OsString} (h : isSafetensorsPath (filename :: path) = true) : filename ∉ sidecars := by
  intro hmem
  have hnot : ∀ sidecar ∈ sidecars, isSafetensorsPath [sidecar] = false := by decide +kernel
  exact absurd (h.symm.trans (hnot filename hmem)) (by decide)

/-- The directory that a safetensors file becomes. -/
structure Beside (parent : Path) (names : List OsString) (path top : Path) (tree tree' : Tree) : Prop where
  resolves : tree'.resolve path = some top
  isDir : tree'.lookup top = some .dir
  files : ∀ name, tree'.lookup (name :: top) = if name ∈ names then some (.file (bytesIn tree parent name)) else none

section
variable {tree : Tree} {cacheDir cacheReal parent : Path} {filename : OsString} (h : CacheFor tree cacheDir cacheReal (filename :: parent))
  {bytes : List UInt8} (hfile : tree.metadata (filename :: parent) = some (.file bytes))
  (hname : isSafetensorsPath (filename :: parent) = true)
include h hfile hname

theorem CacheFor.sidecars_beside : ∀ sidecar ∈ sidecars, tree.isFile (sidecar :: parent) = true := by
  obtain ⟨_, -, -, hlayout⟩ := (accepted_file_iff hfile).mp h.accepted
  exact (ensureSafetensorsFileLayout_ok_iff (filename :: parent)).mp (hlayout hname)

/-- A safetensors file becomes a directory, with the two files beside it. -/
theorem CacheFor.runs_beside : ∃ stem tree', withExtension [] (filename :: parent) = stem :: parent ∧
    Runs (registerLocalModel (filename :: parent) cacheDir true) tree (.ok (stem :: cacheDir)) tree' ∧
    Beside parent (filename :: sidecars) (stem :: cacheDir) (stem :: cacheReal) tree tree' := by
  obtain ⟨stem, hstem⟩ := exists_stem filename
  have hnew := h.new stem
  have hkept : KeptBut (stem :: cacheReal) tree (tree.set stem cacheReal .dir h.isDir (ne_dir_of_new hnew)) := keptBut_set
  have hmkdir := runs_createDirAll_new h.resolves h.isDir hnew s!"create {display (stem :: cacheDir)}"
  have htop : (tree.set stem cacheReal .dir h.isDir (ne_dir_of_new hnew)).lookup (stem :: cacheReal) = some .dir := Tree.lookup_set
  have hempty (name : OsString) :
      (tree.set stem cacheReal .dir h.isDir (ne_dir_of_new hnew)).lookup (name :: stem :: cacheReal) = none := by
    rw [Tree.lookup_set_of_ne (List.cons_ne_self _ _)]
    exact Tree.lookup_below hnew [name]
  generalize tree.set stem cacheReal .dir h.isDir (ne_dir_of_new hnew) = mid at hkept hmkdir htop hempty
  have hdestination : mid.resolve (stem :: cacheDir) = some (stem :: cacheReal) := by
    refine Tree.resolve_child (hkept.resolve hnew h.resolves h.isDir) (hkept.lookup hnew h.isDir) ?_
    simp [htop]
  have hsidecars := h.sidecars_beside hfile hname
  have hisFile : tree.isFile (filename :: parent) = true := by rw [Tree.isFile, hfile]
  obtain ⟨mid', hfirst, hkept', hdestination', htop', hfiles⟩ := runs_copyFiles
    (fun _ => s!"copy {display (filename :: parent)} to {display (stem :: cacheDir)}") (List.nodup_singleton filename)
    (List.forall_mem_singleton.mpr hisFile) hnew hkept hdestination htop fun name _ => hempty name
  have hfree : ∀ sidecar ∈ sidecars, mid'.lookup (sidecar :: stem :: cacheReal) = none := by
    intro sidecar hsidecar
    rw [hfiles, if_neg, hempty]
    exact fun he => not_sidecar hname (List.mem_singleton.mp he ▸ hsidecar)
  obtain ⟨tree', hrest, -, hdestination'', htop'', hfiles'⟩ := runs_copyFiles
    (fun sidecar => s!"copy safetensors sidecar {displayName sidecar}") (by decide +kernel) hsidecars hnew hkept' hdestination' htop' hfree
  have hlayout : Runs (copySafetensorsFileLayout (filename :: parent) (stem :: cacheDir)) mid (.ok ()) tree' := by
    have hbeside : ensureSafetensorsFileLayout mid (filename :: parent) = .ok () := by
      refine (ensureSafetensorsFileLayout_ok_iff (filename :: parent)).mpr fun sidecar hsidecar => ?_
      rw [Tree.isFile, List.tail_cons, hkept.metadata hnew (metadata_of_isFile (hsidecars sidecar hsidecar))]
    have hweights : Runs (copyFile (filename :: parent) (filename :: stem :: cacheDir)
        s!"copy {display (filename :: parent)} to {display (stem :: cacheDir)}") mid (.ok ()) mid' := by
      simpa using hfirst
    exact runs_get ((runs_liftResult_ok hbeside).bind (hweights.bind hrest))
  refine ⟨stem, tree', hstem parent, ?_, hdestination'', htop'', fun name => ?_⟩
  · have hnot : tree.isDir (filename :: parent) = false := Native.isDir_of_isFile hisFile
    refine runs_get ((runs_liftResult_ok h.accepted).bind ?_)
    refine h.runs_createDirAll.bind (runs_get ?_)
    dsimp only
    rw [h.uniqueDestination_eq, hnot, hname, if_neg Bool.false_ne_true, if_pos rfl, hstem]
    exact hmkdir.bind (hlayout.bind (runs_pure ..))
  · rw [hfiles', hfiles, hempty]
    by_cases hsidecar : name ∈ sidecars
    · rw [if_pos hsidecar, if_pos (List.mem_cons_of_mem _ hsidecar)]
    · simp [hsidecar]

end

theorem name_of_isSafetensorsPath {filename : OsString} {parent : Path} (h : isSafetensorsPath (filename :: parent) = true) :
    toStr filename = some filename ∧ isSafetensorsName filename = true := by
  rw [isSafetensorsPath, List.head?_cons, Option.bind_some] at h
  cases hutf8 : toStr filename with
  | none =>
    rw [hutf8] at h
    cases h
  | some text =>
    rw [hutf8] at h
    obtain rfl := Native.eq_of_toStr hutf8
    exact ⟨rfl, h⟩

theorem not_gguf {filename : OsString} {parent : Path} (h : isSafetensorsPath (filename :: parent) = true) :
    Native.NativeModelFormat.fromPath (filename :: parent) ≠ .gguf := by
  intro hgguf
  obtain ⟨_, hlast⟩ := Native.suffix_of_fromPath.1 hgguf
  obtain ⟨_, hlast'⟩ := List.isSuffixOf_iff_suffix.mp (name_of_isSafetensorsPath h).2
  have hends := congrArg List.getLast? (hlast.trans hlast'.symm)
  rw [List.getLast?_append, List.getLast?_append, show (osString ".gguf").getLast? = some 102 by decide +kernel,
    show (osString ".safetensors").getLast? = some 115 by decide +kernel] at hends
  cases hends

/-- The files of the directory that a safetensors file becomes. -/
def layoutFiles (tree : Tree) (path : Path) : List (OsString × List UInt8) :=
  ((path.take 1 ++ sidecars).map fun name => (name, bytesIn tree path.tail name)).insertionSort fun left right => left.1 ≤ right.1

section
variable {tree tree' : Tree} {parent path top : Path} {filename name : OsString} (h : Beside parent (filename :: sidecars) path top tree tree')
include h

theorem Beside.metadata : tree'.metadata (name :: path) =
    if name ∈ filename :: sidecars then some (.file (bytesIn tree parent name)) else none := by
  rw [Tree.metadata, Tree.resolve_child h.resolves h.isDir, Option.bind_some, h.files]
  intro target hlink
  rw [h.files] at hlink
  split at hlink
  · cases hlink
  · cases hlink

theorem Beside.contents_eq : Native.contents tree' (name :: path) =
    if name ∈ filename :: sidecars then some (bytesIn tree parent name) else none := by
  rw [Native.contents, h.metadata]
  split
  · rename_i bytes hbytes
    split at hbytes
    · rename_i hmem
      cases hbytes
      rw [if_pos hmem]
    · cases hbytes
  · rename_i hnot
    rw [if_neg]
    intro hmem
    rw [if_pos hmem] at hnot
    exact hnot _ rfl

theorem Beside.isFile_iff : tree'.isFile (name :: path) = true ↔ name ∈ filename :: sidecars := by
  rw [← Native.contents_ne_none_iff, h.contents_eq, ite_ne_right_iff, and_iff_left (Option.some_ne_none _)]

theorem Beside.artifactFiles_eq (hsidecar : filename ∉ sidecars) : artifactFiles tree' path = layoutFiles tree (filename :: parent) := by
  have hkeys : (((filename :: sidecars).map fun name => (name, bytesIn tree parent name)).map Prod.fst).Nodup := by
    rw [List.map_map]
    refine (List.map_id (filename :: sidecars)).symm ▸ List.nodup_cons.mpr ⟨hsidecar, ?_⟩
    decide +kernel
  refine artifactFiles_eq_of_perm ((List.perm_ext_iff_of_nodup nodup_regularFiles.of_map hkeys.of_map).mpr fun file => ?_)
  rw [mem_regularFiles, mem_readDir h.resolves, h.files, List.mem_map]
  constructor
  · intro hentry
    split at hentry
    · rename_i hmem
      exact ⟨file.1, hmem, Prod.ext rfl (Entry.file.inj (Option.some.inj hentry))⟩
    · cases hentry
  · intro hfile
    obtain ⟨name, hmem, rfl⟩ := hfile
    rw [if_pos hmem]

theorem Beside.layout (hname : isSafetensorsPath (filename :: parent) = true) : ensureSafetensorsLayout tree' path = .ok () := by
  refine ensureSafetensorsLayout_ok_iff.mpr ⟨fun sidecar hsidecar => h.isFile_iff.mpr (List.mem_cons_of_mem _ hsidecar), ?_⟩
  refine ⟨(filename, .file (bytesIn tree parent filename)), (mem_readDir h.resolves).mpr ?_, hname⟩
  rw [h.files, if_pos List.mem_cons_self]

theorem Beside.mem_weightNames : name ∈ weightNames tree' path ↔
    name = filename ∧ Native.NativeModelFormat.fromPath [filename] = .safetensors := by
  rw [Install.mem_weightNames h.resolves h.isDir, Native.isWeightFile, Bool.and_eq_true, h.isFile_iff, decide_eq_true_iff]
  constructor
  · intro hweight
    obtain ⟨hmem, hformat⟩ := hweight
    rcases List.mem_cons.mp hmem with rfl | hsidecar
    · exact ⟨rfl, hformat⟩
    · have hnot : ∀ sidecar ∈ sidecars, Native.NativeModelFormat.fromPath [sidecar] ≠ .safetensors := by decide +kernel
      exact absurd hformat (hnot name hsidecar)
  · intro hweight
    obtain ⟨rfl, hformat⟩ := hweight
    exact ⟨List.mem_cons_self, hformat⟩

theorem Beside.weightNames_eq : weightNames tree' path =
    if Native.NativeModelFormat.fromPath [filename] = .safetensors then [filename] else [] := by
  split
  · rename_i hformat
    refine List.perm_singleton.mp ((List.perm_ext_iff_of_nodup nodup_weightNames (List.nodup_singleton _)).mpr fun name => ?_)
    rw [h.mem_weightNames, List.mem_singleton, and_iff_left hformat]
  · rename_i hformat
    exact List.eq_nil_iff_forall_not_mem.mpr fun name hname => hformat (h.mem_weightNames.mp hname).2

section
variable (hfiles : ∀ name ∈ filename :: sidecars, tree.isFile (name :: parent) = true)
include hfiles

theorem Beside.filesIn_eq : Native.filesIn tree' path [filename] = Native.filesIn tree parent [filename] := by
  have hcontents : ∀ name ∈ filename :: sidecars, Native.contents tree' (name :: path) = Native.contents tree (name :: parent) := by
    intro name hmem
    rw [h.contents_eq, if_pos hmem]
    exact (Native.contents_eq_some_iff.mpr (metadata_of_isFile (hfiles name hmem))).symm
  have hweights := hcontents filename List.mem_cons_self
  have hconfig := hcontents (osString "config.json") (List.mem_cons_of_mem _ List.mem_cons_self)
  have htokenizer := hcontents (osString "tokenizer.json") (List.mem_cons_of_mem _ (List.mem_cons_of_mem _ List.mem_cons_self))
  rw [Native.filesIn, Native.filesIn]
  simp only [List.map_cons, List.map_nil, hweights, hconfig, htokenizer]

/-- The directory that a safetensors file becomes is loaded as the file is, unless it has the name of a GGUF file. -/
theorem Beside.selectedFiles_iff {model model' : ModelConfig} (hpath : model.path = filename :: parent) (hpath' : model'.path = path)
    (hname : isSafetensorsPath (filename :: parent) = true) :
    (∀ family, Native.selectedFiles tree family model = Native.selectedFiles tree' family model') ↔
      (Native.NativeModelFormat.fromPath (filename :: parent) = .safetensors → Native.NativeModelFormat.fromPath path ≠ .gguf) := by
  have hfile : tree.isFile (filename :: parent) = true := hfiles filename List.mem_cons_self
  have hdir : tree'.isDir path = true := isDir_of_resolve h.resolves h.isDir
  have hsidecars : ∀ sidecar ∈ sidecars, tree'.isFile (sidecar :: path) = true :=
    fun sidecar hsidecar => h.isFile_iff.mpr (List.mem_cons_of_mem _ hsidecar)
  have hartifact : Native.artifactFileName [filename] = filename := by
    rw [Native.artifactFileName, List.head?_cons, Option.bind_some, (name_of_isSafetensorsPath hname).1]
    rfl
  have hweights := safetensorsWeightFiles_dir hdir
  rw [h.weightNames_eq] at hweights
  subst hpath'
  by_cases hformat : Native.NativeModelFormat.fromPath [filename] = .safetensors
  · rw [if_pos hformat, List.map_singleton, hartifact] at hweights
    change _ = [filename] at hweights
    have hbeside : ∀ sidecar ∈ sidecars, tree.isFile (sidecar :: Native.safetensorsArtifactDir tree model.path) = true := by
      rw [hpath, Native.safetensorsArtifactDir, Native.isDir_of_isFile hfile, if_neg Bool.false_ne_true]
      exact fun sidecar hsidecar => hfiles sidecar (List.mem_cons_of_mem _ hsidecar)
    have hselected (family : Native.CandleModelFamily) : Native.selectedFiles tree family model =
        if .safetensors ∈ Native.supportedCandleFormatsForFamily family then some (Native.filesIn tree parent [filename]) else none := by
      rw [Native.selectedFiles_beside hbeside (hpath ▸ hfile) (hpath ▸ hformat), hpath]
      change (if _ then some (Native.filesIn tree parent [Native.artifactFileName [filename]]) else none) = _
      rw [hartifact]
    have hselected' (family : Native.CandleModelFamily) : Native.selectedFiles tree' family model' =
        if .safetensors ∈ Native.supportedCandleFormatsForFamily family ∧ Native.NativeModelFormat.fromPath model'.path ≠ .gguf then
          some (Native.filesIn tree parent [filename])
        else none := by
      rw [Native.selectedFiles_dir hdir hsidecars hweights, h.filesIn_eq hfiles]
      exact if_congr (and_congr_right fun _ => and_iff_left (List.cons_ne_nil _ _)) rfl rfl
    constructor
    · intro hsame _ hgguf
      have hqwen := hsame .qwen3
      rw [hselected, hselected', if_pos (by decide), if_neg fun h => h.2 hgguf] at hqwen
      cases hqwen
    · intro hgguf family
      rw [hselected, hselected']
      exact if_congr (and_iff_left (hgguf hformat)).symm rfl rfl
  · have hunknown : Native.NativeModelFormat.fromPath model.path = .unknown := by
      rw [hpath]
      cases hother : Native.NativeModelFormat.fromPath (filename :: parent) with
      | gguf => exact absurd hother (not_gguf hname)
      | safetensors => exact absurd hother hformat
      | unknown => rfl
    rw [if_neg hformat] at hweights
    refine iff_of_true (fun family => ?_) fun h => absurd h hformat
    rw [Native.selectedFiles_dir hdir hsidecars hweights, if_neg fun h => h.2.2 rfl, Native.selectedFiles_unknown]
    rw [Native.inferNativeArtifactFormat_file (hpath ▸ hfile), hunknown]

end

end

end Llmctl.Install
