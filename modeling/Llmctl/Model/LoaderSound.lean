import Llmctl.Model.Loader

/-!
# What the loader selects

Of a file it is the file, with the two others beside it if it is a safetensors file. Of a
directory it is what the directory has.
-/

namespace Llmctl.Native

open Fs Install

section
variable {tree : Tree} {family : CandleModelFamily} {model : Install.ModelConfig} {format : NativeModelFormat}

theorem isFile_of_isDir {path : Path} (h : tree.isDir path = true) : tree.isFile path = false := by
  unfold Tree.isDir at h
  rw [beq_iff_eq] at h
  rw [Tree.isFile, h]

theorem isDir_of_isFile {path : Path} (h : tree.isFile path = true) : tree.isDir path = false := by
  by_contra hdir
  rw [isFile_of_isDir (Bool.eq_true_of_not_eq_false hdir)] at h
  cases h

theorem contents_eq_some_iff {path : Path} {bytes : List UInt8} :
    contents tree path = some bytes ↔ tree.metadata path = some (.file bytes) := by
  unfold contents
  split
  · rename_i other hother
    rw [hother, Option.some.injEq, Option.some.injEq, Entry.file.injEq]
  · rename_i hnot
    exact iff_of_false nofun (hnot bytes)

theorem contents_ne_none_iff {path : Path} : contents tree path ≠ none ↔ tree.isFile path = true := by
  unfold contents Tree.isFile
  cases tree.metadata path with
  | none => simp
  | some entry => cases entry <;> simp

theorem selectedFiles_unknown (hformat : inferNativeArtifactFormat tree model.path = .unknown) :
    selectedFiles tree family model = none := by
  have hnot : NativeModelFormat.unknown ∉ supportedCandleFormatsForFamily family := by
    cases family <;> decide
  rw [selectedFiles, validateCandleModelArtifacts, hformat]
  dsimp only
  rw [if_neg hnot]
  rfl

/-! ## Names -/

theorem eq_of_toStr {name text : OsString} (h : toStr name = some text) : text = name := by
  unfold toStr at h
  split at h
  · exact (Option.some.inj h).symm
  · cases h

theorem extension_eq {name ext : OsString} (h : extension name = some ext) : ∃ stem, name = stem ++ [46] ++ ext := by
  obtain ⟨before, hbefore, hext⟩ := Option.bind_eq_some_iff.mp h
  unfold rsplitFileAtDot at hbefore hext
  dsimp only at hbefore hext
  split at hext
  · cases hext
  · rename_i hdots
    rw [if_neg hdots] at hbefore
    split at hext
    · rename_i hdot
      split at hext
      · cases hext
      · obtain ⟨after, start, hname, hafter⟩ := List.eq_append_cons_of_mem (List.mem_reverse.mpr hdot)
        have htake : name.reverse.takeWhile (fun b => decide (b ≠ 46)) = after := by
          rw [hname, List.takeWhile_append_of_pos fun b hb => decide_eq_true (ne_of_mem_of_not_mem hb hafter)]
          simp
        rw [htake] at hext
        refine ⟨start.reverse, ?_⟩
        rw [← Option.some.inj hext, ← List.reverse_reverse name, hname]
        simp
    · rename_i hdot
      rw [if_neg hdot] at hbefore
      cases hbefore

/-- A format is known by the end of a name. -/
theorem suffix_of_fromPath {name : OsString} {dir : Path} :
    (NativeModelFormat.fromPath (name :: dir) = .gguf → osString ".gguf" <:+ toAsciiLowercase name) ∧
      (NativeModelFormat.fromPath (name :: dir) = .safetensors → osString ".safetensors" <:+ toAsciiLowercase name) := by
  unfold NativeModelFormat.fromPath
  rw [List.head?_cons, Option.bind_some]
  cases hext : extension name with
  | none => exact ⟨nofun, nofun⟩
  | some ext =>
    obtain ⟨stem, rfl⟩ := extension_eq hext
    have hlower : toAsciiLowercase (stem ++ [46] ++ ext) = toAsciiLowercase stem ++ ([46] ++ toAsciiLowercase ext) := by
      simp [toAsciiLowercase]
    have hgguf : [46] ++ osString "gguf" = osString ".gguf" := by decide +kernel
    have hsafetensors : [46] ++ osString "safetensors" = osString ".safetensors" := by decide +kernel
    rw [hlower, ← hgguf, ← hsafetensors, Option.bind_some]
    cases hutf8 : toStr ext with
    | none => exact ⟨nofun, nofun⟩
    | some text =>
      obtain rfl := eq_of_toStr hutf8
      rw [Option.map_some]
      dsimp only
      constructor
      · intro hformat
        split at hformat
        · rename_i hends
          rw [hends]
          exact List.suffix_append _ _
        · split at hformat <;> cases hformat
      · intro hformat
        split at hformat
        · cases hformat
        · split at hformat
          · rename_i hends
            rw [hends]
            exact List.suffix_append _ _
          · cases hformat

/-! ## Files -/

section
variable (hfile : tree.isFile model.path = true)
include hfile

theorem inferNativeArtifactFormat_file : inferNativeArtifactFormat tree model.path = .fromPath model.path := by
  unfold inferNativeArtifactFormat
  split
  · rfl
  · rename_i hunknown
    rw [isDir_of_isFile hfile, Bool.false_and, if_neg Bool.false_ne_true]
    exact (not_not.mp hunknown).symm

theorem selectedFiles_gguf (hformat : NativeModelFormat.fromPath model.path = .gguf) : selectedFiles tree family model =
    if .gguf ∈ supportedCandleFormatsForFamily family then some ⟨[(artifactFileName model.path, contents tree model.path)], none, none⟩
    else none := by
  rw [selectedFiles, validateCandleModelArtifacts, inferNativeArtifactFormat_file hfile, hformat]
  dsimp only
  split
  · rw [validateGgufArtifacts, hfile, hformat]
    rfl
  · rfl

end

/-! ## Files beside each other -/

/-- The files that are read in a directory. -/
def filesIn (tree : Tree) (artifactDir : Path) (weights : List OsString) : LoadedFiles :=
  let read (name : OsString) := (name, contents tree (name :: artifactDir))
  ⟨weights.map read, some (read (osString "tokenizer.json")), some (read (osString "config.json"))⟩

section
variable (hsidecars : ∀ sidecar ∈ sidecars, tree.isFile (sidecar :: safetensorsArtifactDir tree model.path) = true)
include hsidecars

theorem validateSafetensorsArtifacts_eq {weights : List OsString}
    (hweights : safetensorsWeightFiles tree model.path (safetensorsArtifactDir tree model.path) = weights) :
    (validateSafetensorsArtifacts tree family model).toOption =
      if weights ≠ [] then some ⟨family, .safetensors, weights, some (osString "tokenizer.json"), some (osString "config.json")⟩
      else none := by
  have hconfig := hsidecars (osString "config.json") List.mem_cons_self
  have htokenizer := hsidecars (osString "tokenizer.json") (List.mem_cons_of_mem _ List.mem_cons_self)
  rw [validateSafetensorsArtifacts, hweights, hconfig, htokenizer]
  cases weights with
  | nil => rfl
  | cons first weights => rfl

theorem selectedFiles_safetensors (hformat : inferNativeArtifactFormat tree model.path = .safetensors) {weights : List OsString}
    (hweights : safetensorsWeightFiles tree model.path (safetensorsArtifactDir tree model.path) = weights) :
    selectedFiles tree family model =
      if .safetensors ∈ supportedCandleFormatsForFamily family ∧ weights ≠ [] then
        some (filesIn tree (safetensorsArtifactDir tree model.path) weights)
      else none := by
  rw [selectedFiles, validateCandleModelArtifacts, hformat]
  dsimp only
  by_cases hsupported : .safetensors ∈ supportedCandleFormatsForFamily family
  · rw [if_pos hsupported, validateSafetensorsArtifacts_eq hsidecars hweights]
    by_cases hnil : weights = []
    · rw [if_neg (not_not.mpr hnil), if_neg fun h => h.2 hnil]
      rfl
    · rw [if_pos hnil, if_pos ⟨hsupported, hnil⟩]
      rfl
  · rw [if_neg hsupported, if_neg fun h => hsupported h.1]
    rfl

/-- Of a safetensors file. -/
theorem selectedFiles_beside (hfile : tree.isFile model.path = true) (hformat : NativeModelFormat.fromPath model.path = .safetensors) :
    selectedFiles tree family model =
      if .safetensors ∈ supportedCandleFormatsForFamily family then
        some (filesIn tree model.path.tail [artifactFileName model.path])
      else none := by
  have hweights : safetensorsWeightFiles tree model.path (safetensorsArtifactDir tree model.path) = [artifactFileName model.path] := by
    rw [safetensorsWeightFiles, isWeightFile, hfile, hformat]
    rfl
  have hdir : safetensorsArtifactDir tree model.path = model.path.tail := by
    rw [safetensorsArtifactDir, isDir_of_isFile hfile, if_neg Bool.false_ne_true]
  rw [selectedFiles_safetensors hsidecars ((inferNativeArtifactFormat_file hfile).trans hformat) hweights, hdir]
  simp

end

/-! ## Directories -/

section
variable (hdir : tree.isDir model.path = true)
include hdir

theorem safetensorsArtifactDir_dir : safetensorsArtifactDir tree model.path = model.path := by
  rw [safetensorsArtifactDir, hdir, if_pos rfl]

/-- A directory is refused by the name of a GGUF file, and without weight files. -/
theorem selectedFiles_dir (hsidecars : ∀ sidecar ∈ sidecars, tree.isFile (sidecar :: model.path) = true) {weights : List OsString}
    (hweights : safetensorsWeightFiles tree model.path model.path = weights) :
    selectedFiles tree family model =
      if .safetensors ∈ supportedCandleFormatsForFamily family ∧ NativeModelFormat.fromPath model.path ≠ .gguf ∧ weights ≠ [] then
        some (filesIn tree model.path weights)
      else none := by
  have hartifactDir := safetensorsArtifactDir_dir hdir
  have hloaded (hformat : inferNativeArtifactFormat tree model.path = .safetensors) : selectedFiles tree family model =
      if .safetensors ∈ supportedCandleFormatsForFamily family ∧ weights ≠ [] then some (filesIn tree model.path weights)
      else none := by
    have hbeside : ∀ sidecar ∈ sidecars, tree.isFile (sidecar :: safetensorsArtifactDir tree model.path) = true := by
      rwa [hartifactDir]
    have hnames : safetensorsWeightFiles tree model.path (safetensorsArtifactDir tree model.path) = weights := by
      rwa [hartifactDir]
    rw [selectedFiles_safetensors hbeside hformat hnames, hartifactDir]
  cases hformat : NativeModelFormat.fromPath model.path with
  | gguf =>
    have hgguf : inferNativeArtifactFormat tree model.path = .gguf := by
      rw [inferNativeArtifactFormat, hformat]
      rfl
    rw [if_neg fun h => h.2.1 rfl, selectedFiles, validateCandleModelArtifacts, hgguf]
    dsimp only
    split
    · rw [validateGgufArtifacts, isFile_of_isDir hdir]
      rfl
    · rfl
  | safetensors =>
    rw [hloaded (by rw [inferNativeArtifactFormat, hformat]; rfl)]
    simp
  | unknown =>
    have hinfer : inferNativeArtifactFormat tree model.path = if !weights.isEmpty then .safetensors else .unknown := by
      rw [inferNativeArtifactFormat, hformat, hdir, hweights]
      rfl
    cases weights with
    | nil =>
      rw [selectedFiles_unknown hinfer, if_neg fun h => h.2.2 rfl]
    | cons first weights =>
      rw [hloaded hinfer]
      simp

end

end

end Llmctl.Native
