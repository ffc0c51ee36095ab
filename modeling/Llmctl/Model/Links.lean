import Llmctl.Model.CopySound
import Llmctl.Model.InstallSound
import Llmctl.Model.LoaderSound
import Mathlib.Data.List.Perm.Subperm

/-!
# Directories with links

A copied directory has the digest of the one it is a copy of. What it does not have are links,
and whether the loader misses them is said here.
-/

namespace Llmctl.Install

open Fs

/-- A name in a directory, by which a file is opened that is elsewhere. -/
def LinkToFile (tree : Tree) (path : Path) (name : OsString) : Prop :=
  (∃ target, (name, .link target) ∈ tree.readDir path) ∧ tree.isFile (name :: path) = true

/-- A directory, its path and a copy with its path. -/
structure Copied (path real path' top : Path) (tree tree' : Tree) : Prop where
  resolves : tree.resolve path = some real
  isDir : tree.lookup real = some .dir
  resolves' : tree'.resolve path' = some top
  below : ∀ rest, tree'.lookup (rest ++ top) = copied (tree.lookup (rest ++ real))

section
variable {path real path' top : Path} {tree tree' : Tree} {name : OsString}

theorem copied_eq_some_iff {old : Option Entry} {entry : Entry} :
    copied old = some entry ↔ old = some entry ∧ ∀ target, entry ≠ .link target := by
  constructor
  · intro h
    unfold copied at h
    split at h
    · cases h
    · rename_i hnot
      exact ⟨h, fun target he => hnot target (he ▸ h)⟩
  · intro h
    obtain ⟨rfl, hnot⟩ := h
    cases entry with
    | link target => exact absurd rfl (hnot target)
    | _ => rfl

/-- By a name in a directory a file is opened that is there, or that a link there leads to. -/
theorem isFile_child_iff (hreal : tree.resolve path = some real) (hdir : tree.lookup real = some .dir) :
    tree.isFile (name :: path) = true ↔ (∃ bytes, tree.lookup (name :: real) = some (.file bytes)) ∨ LinkToFile tree path name := by
  have hlink {target : List OsString} : (name, .link target) ∈ tree.readDir path ↔ tree.lookup (name :: real) = some (.link target) :=
    mem_readDir hreal
  by_cases hlinked : ∃ target, tree.lookup (name :: real) = some (.link target)
  · obtain ⟨target, htarget⟩ := hlinked
    constructor
    · exact fun h => .inr ⟨⟨target, hlink.mpr htarget⟩, h⟩
    · intro h
      rcases h with ⟨bytes, hbytes⟩ | h
      · rw [htarget] at hbytes
        cases hbytes
      · exact h.2
  · have hmeta : tree.metadata (name :: path) = tree.lookup (name :: real) := by
      rw [Tree.metadata, Tree.resolve_child hreal hdir fun target h => hlinked ⟨target, h⟩, Option.bind_some]
    constructor
    · intro h
      rw [Tree.isFile, hmeta] at h
      split at h
      · rename_i bytes hbytes
        exact .inl ⟨bytes, hbytes⟩
      · cases h
    · intro h
      rcases h with ⟨bytes, hbytes⟩ | ⟨⟨target, htarget⟩, _⟩
      · rw [Tree.isFile, hmeta, hbytes]
      · exact absurd ⟨target, hlink.mp htarget⟩ hlinked

variable (h : Copied path real path' top tree tree')
include h

theorem Copied.isDir' : tree'.lookup top = some .dir := (h.below []).trans (by rw [List.nil_append, h.isDir]; rfl)

theorem Copied.mem_readDir' {entry : OsString × Entry} :
    entry ∈ tree'.readDir path' ↔ entry ∈ tree.readDir path ∧ ∀ target, entry.2 ≠ .link target := by
  rw [mem_readDir h.resolves', mem_readDir h.resolves]
  exact (Eq.congr_left (h.below [entry.1])).trans copied_eq_some_iff

theorem Copied.metadata (name : OsString) : tree'.metadata (name :: path') = copied (tree.lookup (name :: real)) := by
  rw [Tree.metadata, Tree.resolve_child h.resolves' h.isDir', Option.bind_some]
  · exact h.below [name]
  · intro target hlink
    exact (copied_eq_some_iff.mp ((h.below [name]).symm.trans hlink)).2 target rfl

theorem Copied.contents_eq_some {bytes : List UInt8} :
    Native.contents tree' (name :: path') = some bytes ↔ tree.lookup (name :: real) = some (.file bytes) := by
  rw [Native.contents_eq_some_iff, h.metadata, copied_eq_some_iff]
  exact and_iff_left (by simp)

theorem Copied.isFile_copy : tree'.isFile (name :: path') = true ↔ ∃ bytes, tree.lookup (name :: real) = some (.file bytes) := by
  rw [← Native.contents_ne_none_iff, Option.ne_none_iff_exists']
  exact exists_congr fun _ => h.contents_eq_some

/-- A file is in the copy unless there is a link to it. -/
theorem Copied.isFile_iff : tree'.isFile (name :: path') = true ↔ tree.isFile (name :: path) = true ∧ ¬ LinkToFile tree path name := by
  rw [h.isFile_copy, isFile_child_iff h.resolves h.isDir]
  constructor
  · intro hfile
    refine ⟨.inl hfile, fun hlink => ?_⟩
    obtain ⟨bytes, hbytes⟩ := hfile
    obtain ⟨⟨target, htarget⟩, -⟩ := hlink
    have htarget := (mem_readDir h.resolves).mp htarget
    dsimp only at htarget
    rw [hbytes] at htarget
    cases htarget
  · intro hfile
    exact hfile.1.resolve_right hfile.2

/-- What is opened by a name is the same, links apart. -/
theorem Copied.contents_iff :
    Native.contents tree (name :: path) = Native.contents tree' (name :: path') ↔ ¬ LinkToFile tree path name := by
  constructor
  · intro heq hlink
    have hfile := Native.contents_ne_none_iff.mpr hlink.2
    rw [heq, Native.contents_ne_none_iff] at hfile
    exact (h.isFile_iff.mp hfile).2 hlink
  · intro hnot
    cases hcontents : Native.contents tree' (name :: path') with
    | some bytes =>
      have hentry := h.contents_eq_some.mp hcontents
      rw [Native.contents_eq_some_iff, Tree.metadata, Tree.resolve_child h.resolves h.isDir, Option.bind_some]
      · exact hentry
      · rw [hentry]
        simp
    | none =>
      by_contra hsome
      have hfile := h.isFile_iff.mpr ⟨Native.contents_ne_none_iff.mp hsome, hnot⟩
      exact Native.contents_ne_none_iff.mpr hfile hcontents

end

/-! ## The digest -/

/-- The order in a sorted list does not depend on the order before, if only equal elements come out at one place. -/
theorem insertionSort_eq_of_perm {α : Type} {r : α → α → Prop} [DecidableRel r] [Std.Total r] [IsTrans α r] {l l' : List α}
    (h : l.Perm l') (hanti : ∀ a ∈ l, ∀ b ∈ l, r a b → r b a → a = b) : l.insertionSort r = l'.insertionSort r := by
  refine List.Perm.eq_of_pairwise (fun a b ha hb => ?_) (List.pairwise_insertionSort r l) (List.pairwise_insertionSort r l') ?_
  · exact hanti a ((List.mem_insertionSort r).mp ha) b (h.mem_iff.mpr ((List.mem_insertionSort r).mp hb))
  · exact (List.perm_insertionSort r l).trans (h.trans (List.perm_insertionSort r l').symm)

def regularFiles (tree : Tree) (path : Path) : List (OsString × List UInt8) :=
  (tree.readDir path).filterMap fun
    | (name, .file bytes) => some (name, bytes)
    | _ => none

section
variable {path real path' top : Path} {tree tree' : Tree} {name : OsString}

theorem mem_regularFiles {file : OsString × List UInt8} : file ∈ regularFiles tree path ↔ (file.1, .file file.2) ∈ tree.readDir path := by
  rw [regularFiles, List.mem_filterMap]
  constructor
  · intro h
    obtain ⟨⟨name, entry⟩, hentry, h⟩ := h
    cases entry with
    | file bytes =>
      cases h
      exact hentry
    | _ => cases h
  · exact fun h => ⟨_, h, rfl⟩

theorem nodup_regularFiles : ((regularFiles tree path).map Prod.fst).Nodup := by
  have hnames : ((tree.readDir path).map Prod.fst).Nodup := nodup_readDir
  rw [List.Nodup, List.pairwise_map] at hnames ⊢
  rw [regularFiles, List.pairwise_filterMap]
  refine hnames.imp fun {a a'} hne b hb b' hb' => ?_
  obtain ⟨name, entry⟩ := a
  obtain ⟨name', entry'⟩ := a'
  cases entry with
  | file bytes =>
    cases entry' with
    | file bytes' =>
      cases hb
      cases hb'
      exact hne
    | _ => cases hb'
  | _ => cases hb

theorem artifactFiles_eq_of_perm {files : List (OsString × List UInt8)} (h : (regularFiles tree path).Perm files) :
    artifactFiles tree path = files.insertionSort fun left right => left.1 ≤ right.1 := by
  have : Std.Total (fun left right : OsString × List UInt8 => left.1 ≤ right.1) := ⟨fun a b => List.le_total a.1 b.1⟩
  have : IsTrans (OsString × List UInt8) (fun left right => left.1 ≤ right.1) := ⟨fun _ _ _ => List.le_trans⟩
  exact insertionSort_eq_of_perm h fun a ha b hb hle hge => List.inj_on_of_nodup_map nodup_regularFiles ha hb (List.le_antisymm hle hge)

/-- The files that the digest is taken of. -/
theorem Copied.artifactFiles_eq (h : Copied path real path' top tree tree') : artifactFiles tree' path' = artifactFiles tree path := by
  refine artifactFiles_eq_of_perm ((List.perm_ext_iff_of_nodup nodup_regularFiles.of_map nodup_regularFiles.of_map).mpr fun file => ?_)
  rw [mem_regularFiles, mem_regularFiles, h.mem_readDir']
  exact and_iff_left (by simp)

theorem ensureSafetensorsLayout_ok_iff : ensureSafetensorsLayout tree path = .ok () ↔
    (∀ sidecar ∈ sidecars, tree.isFile (sidecar :: path) = true) ∧
      ∃ entry ∈ tree.readDir path, (toStr entry.1).any isSafetensorsName = true := by
  constructor
  · intro hlayout
    refine ⟨isFile_of_layout hlayout, ?_⟩
    unfold ensureSafetensorsLayout at hlayout
    split at hlayout
    · cases hlayout
    · split at hlayout
      · rename_i hany
        exact List.any_eq_true.mp hany
      · cases hlayout
  · intro h
    obtain ⟨hfiles, hweights⟩ := h
    have hfind : (sidecars.find? fun required => !tree.isFile (required :: path)) = none := by
      refine List.find?_eq_none.mpr fun sidecar hsidecar => ?_
      rw [hfiles sidecar hsidecar]
      decide
    rw [ensureSafetensorsLayout, hfind]
    exact if_pos (List.any_eq_true.mpr hweights)

/-- A copy is complete unless a link was in place of a file that has to be there, or of all weight files. -/
theorem Copied.layout_iff (h : Copied path real path' top tree tree') (hlayout : ensureSafetensorsLayout tree path = .ok ()) :
    ensureSafetensorsLayout tree' path' = .ok () ↔ (∀ sidecar ∈ sidecars, ¬ LinkToFile tree path sidecar) ∧
      ∃ entry ∈ tree.readDir path, (toStr entry.1).any isSafetensorsName = true ∧ ∀ target, entry.2 ≠ .link target := by
  rw [ensureSafetensorsLayout_ok_iff]
  refine and_congr (forall₂_congr fun sidecar hsidecar => ?_) (exists_congr fun entry => ?_)
  · rw [h.isFile_iff]
    exact and_iff_right (isFile_of_layout hlayout sidecar hsidecar)
  · rw [h.mem_readDir', and_assoc, and_comm (a := ∀ target, entry.2 ≠ .link target)]

/-! ## What is loaded -/

/-- The names of the weight files of a directory. -/
def weightNames (tree : Tree) (path : Path) : List OsString :=
  ((tree.readDir path).map Prod.fst).filter fun name => Native.isWeightFile tree (name :: path)

theorem safetensorsWeightFiles_dir (hdir : tree.isDir path = true) : Native.safetensorsWeightFiles tree path path =
    ((weightNames tree path).map fun name => Native.artifactFileName [name]).insertionSort fun left right => left ≤ right := by
  rw [Native.safetensorsWeightFiles, Native.isWeightFile, Native.isFile_of_isDir hdir, Bool.false_and, if_neg Bool.false_ne_true]
  congr 1
  rw [weightNames, List.filter_map, List.filter_map, List.map_map, List.map_map]
  rfl

theorem nodup_weightNames : (weightNames tree path).Nodup := nodup_readDir.filter _

theorem mem_weightNames (hreal : tree.resolve path = some real) (hdir : tree.lookup real = some .dir) :
    name ∈ weightNames tree path ↔ Native.isWeightFile tree (name :: path) = true := by
  rw [weightNames, List.mem_filter, and_iff_right_iff_imp]
  intro hweight
  rcases (isFile_child_iff hreal hdir).mp (Bool.and_eq_true_iff.mp hweight).1 with ⟨bytes, hbytes⟩ | ⟨⟨target, htarget⟩, -⟩
  · exact List.mem_map.mpr ⟨(name, .file bytes), (mem_readDir hreal).mpr hbytes, rfl⟩
  · exact List.mem_map.mpr ⟨_, htarget, rfl⟩

/-- The weight files of a directory, and what is read by their names. -/
def loadedWeights (tree : Tree) (path : Path) : List (OsString × Option (List UInt8)) :=
  (Native.safetensorsWeightFiles tree path path).map fun name => (name, Native.contents tree (name :: path))

theorem map_fst_loadedWeights : (loadedWeights tree path).map Prod.fst = Native.safetensorsWeightFiles tree path path := by
  rw [loadedWeights, List.map_map]
  exact List.map_id _

/-- The names that the loader opens for weights: all weight files that are no UTF-8 have one name. -/
def LoadedName (tree : Tree) (path : Path) (name : OsString) : Prop :=
  Native.NativeModelFormat.fromPath [name] = .safetensors ∨
    name = Native.unnamed ∧ ∃ other, Native.isWeightFile tree (other :: path) = true ∧ toStr other = none

section
variable (h : Copied path real path' top tree tree')
include h

theorem Copied.mem_weightNames' : name ∈ weightNames tree' path' ↔ name ∈ weightNames tree path ∧ ¬ LinkToFile tree path name := by
  rw [mem_weightNames h.resolves' h.isDir', mem_weightNames h.resolves h.isDir, Native.isWeightFile, Bool.and_eq_true, h.isFile_iff,
    Native.isWeightFile, Bool.and_eq_true, and_right_comm]
  rfl

/-- The loader takes the same weights where it does not open a link for one. -/
theorem Copied.loadedWeights_iff : loadedWeights tree path = loadedWeights tree' path' ↔
    ∀ name, LoadedName tree path name → ¬ LinkToFile tree path name := by
  have hweights := safetensorsWeightFiles_dir (isDir_of_resolve h.resolves h.isDir)
  have hweights' := safetensorsWeightFiles_dir (isDir_of_resolve h.resolves' h.isDir')
  constructor
  · intro heq name hname hlink
    have hnames := congrArg (List.map Prod.fst) heq
    rw [map_fst_loadedWeights, map_fst_loadedWeights] at hnames
    have hlength := congrArg List.length hnames
    rw [hweights, hweights', List.length_insertionSort, List.length_insertionSort, List.length_map, List.length_map] at hlength
    have hsubset : weightNames tree' path' ⊆ weightNames tree path := fun _ hmem => (h.mem_weightNames'.mp hmem).1
    have hperm := (List.subperm_of_subset nodup_weightNames hsubset).perm_of_length_le hlength.le
    rcases hname with hformat | ⟨rfl, other, hother, hunnamed⟩
    · have hmem : name ∈ weightNames tree path := by
        rw [mem_weightNames h.resolves h.isDir, Native.isWeightFile, hlink.2]
        exact decide_eq_true hformat
      exact (h.mem_weightNames'.mp (hperm.mem_iff.mpr hmem)).2 hlink
    · have hmem : Native.unnamed ∈ Native.safetensorsWeightFiles tree path path := by
        rw [hweights, List.mem_insertionSort]
        refine List.mem_map.mpr ⟨other, (mem_weightNames h.resolves h.isDir).mpr hother, ?_⟩
        rw [Native.artifactFileName, List.head?_cons, Option.bind_some, hunnamed]
        rfl
      rw [loadedWeights, loadedWeights, ← hnames] at heq
      exact h.contents_iff.mp (Prod.mk.inj (List.map_inj_left.mp heq _ hmem)).2 hlink
  · intro hlinks
    have hperm : (weightNames tree path).Perm (weightNames tree' path') := by
      refine (List.perm_ext_iff_of_nodup nodup_weightNames nodup_weightNames).mpr fun name => ?_
      rw [h.mem_weightNames', Iff.comm, and_iff_left_iff_imp]
      intro hmem
      rw [mem_weightNames h.resolves h.isDir] at hmem
      exact hlinks name (.inl (of_decide_eq_true (Bool.and_eq_true_iff.mp hmem).2))
    have hsame : Native.safetensorsWeightFiles tree path path = Native.safetensorsWeightFiles tree' path' path' := by
      have : Std.Total (fun left right : OsString => left ≤ right) := ⟨fun a b => List.le_total a b⟩
      have : IsTrans OsString (fun left right => left ≤ right) := ⟨fun _ _ _ => List.le_trans⟩
      rw [hweights, hweights']
      exact insertionSort_eq_of_perm (hperm.map _) fun _ _ _ _ => List.le_antisymm
    rw [loadedWeights, loadedWeights, ← hsame]
    refine List.map_congr_left fun name hname => Prod.ext rfl (h.contents_iff.mpr (hlinks name ?_))
    rw [hweights, List.mem_insertionSort] at hname
    obtain ⟨other, hother, rfl⟩ := List.mem_map.mp hname
    rw [mem_weightNames h.resolves h.isDir] at hother
    cases hutf8 : toStr other with
    | none =>
      refine .inr ⟨?_, other, hother, hutf8⟩
      rw [Native.artifactFileName, List.head?_cons, Option.bind_some, hutf8]
      rfl
    | some text =>
      rw [Native.artifactFileName, List.head?_cons, Option.bind_some, hutf8, Option.getD_some, Native.eq_of_toStr hutf8]
      exact .inl (of_decide_eq_true (Bool.and_eq_true_iff.mp hother).2)

/-- The copy of a directory, under its name, is loaded as the directory is, if no link is opened for weights. -/
theorem Copied.selectedFiles_iff {model model' : ModelConfig} (hpath : model.path = path) (hpath' : model'.path = path')
    (hformat : Native.NativeModelFormat.fromPath path' = .fromPath path)
    (hfiles : ∀ sidecar ∈ sidecars, tree.isFile (sidecar :: path) = true) (hsidecars : ∀ sidecar ∈ sidecars, ¬ LinkToFile tree path sidecar) :
    (∀ family, Native.selectedFiles tree family model = Native.selectedFiles tree' family model') ↔
      (Native.NativeModelFormat.fromPath path ≠ .gguf → ∀ name, LoadedName tree path name → ¬ LinkToFile tree path name) := by
  subst hpath hpath'
  have hselected (family : Native.CandleModelFamily) : Native.selectedFiles tree family model = _ := Native.selectedFiles_dir
    (isDir_of_resolve h.resolves h.isDir) hfiles rfl
  have hselected' (family : Native.CandleModelFamily) : Native.selectedFiles tree' family model' = _ := Native.selectedFiles_dir
    (isDir_of_resolve h.resolves' h.isDir') (fun sidecar hsidecar => h.isFile_iff.mpr ⟨hfiles sidecar hsidecar, hsidecars sidecar hsidecar⟩) rfl
  have hbeside : ∀ sidecar ∈ sidecars, Native.contents tree (sidecar :: model.path) = Native.contents tree' (sidecar :: model'.path) :=
    fun sidecar hsidecar => h.contents_iff.mpr (hsidecars sidecar hsidecar)
  have hconfig := hbeside (osString "config.json") List.mem_cons_self
  have htokenizer := hbeside (osString "tokenizer.json") (List.mem_cons_of_mem _ List.mem_cons_self)
  have hfilesIn : Native.filesIn tree model.path (Native.safetensorsWeightFiles tree model.path model.path) =
      Native.filesIn tree' model'.path (Native.safetensorsWeightFiles tree' model'.path model'.path) ↔
        loadedWeights tree model.path = loadedWeights tree' model'.path := by
    rw [Native.filesIn, Native.filesIn, Native.LoadedFiles.mk.injEq]
    exact and_iff_left ⟨congrArg some (Prod.ext rfl htokenizer), congrArg some (Prod.ext rfl hconfig)⟩
  have hnone {tree : Tree} {path : Path} : loadedWeights tree path = [] ↔ Native.safetensorsWeightFiles tree path path = [] :=
    List.map_eq_nil_iff
  constructor
  · intro hsame hne
    refine h.loadedWeights_iff.mp ?_
    have hqwen := hsame .qwen3
    rw [hselected, hselected', hformat] at hqwen
    split at hqwen
    · split at hqwen
      · exact hfilesIn.mp (Option.some.inj hqwen)
      · cases hqwen
    · rename_i hnot
      split at hqwen
      · cases hqwen
      · rename_i hnot'
        have hempty {weights : List OsString}
            (hnot : ¬ (.safetensors ∈ Native.supportedCandleFormatsForFamily .qwen3 ∧
              Native.NativeModelFormat.fromPath model.path ≠ .gguf ∧ weights ≠ [])) : weights = [] := by
          by_contra hweights
          exact hnot ⟨by decide, hne, hweights⟩
        rw [hnone.mpr (hempty hnot), hnone.mpr (hempty hnot')]
  · intro hlinks family
    rw [hselected, hselected', hformat]
    by_cases hne : Native.NativeModelFormat.fromPath model.path ≠ .gguf
    · have hloaded := h.loadedWeights_iff.mpr (hlinks hne)
      rw [hfilesIn.mpr hloaded, ← map_fst_loadedWeights, ← map_fst_loadedWeights, hloaded]
    · rw [if_neg fun h => hne h.2.1, if_neg fun h => hne h.2.1]

end

end

end Llmctl.Install
