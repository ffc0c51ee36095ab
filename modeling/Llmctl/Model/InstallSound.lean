import Llmctl.Model.Install

/-!
# What an installation leaves alone

A call sets entries under names that are free in the cache, and the file of a download that
was interrupted. The one that does not look whether its name is free is the copy of a single
safetensors file, for which a name is found and another one is taken.
-/

namespace Llmctl.Install

open Fs

/-- The name of a download that is not complete. -/
def isPart (name : OsString) : Bool := (osString ".part").isSuffixOf name

/-- The files in the cache are as they were, but for interrupted downloads, and its directories
have no new ones. -/
structure LeavesAlone (cacheDir : Path) (tree tree' : Tree) : Prop where
  kept : ∀ rest bytes, rest ≠ [] → (∀ name, rest = [name] → isPart name = false) →
    tree.lookup (rest ++ cacheDir) = some (.file bytes) → tree'.lookup (rest ++ cacheDir) = some (.file bytes)
  added : ∀ rest below bytes, rest ≠ [] → tree.lookup (rest ++ cacheDir) = some .dir →
    tree.lookup (below ++ (rest ++ cacheDir)) = none → tree'.lookup (below ++ (rest ++ cacheDir)) ≠ some (.file bytes)

/-! ## Free paths -/

/-- An interrupted download, or what has nothing there at its name in the cache. -/
def Free (cacheDir : Path) (tree : Tree) (path : Path) : Prop :=
  (∃ name, path = name :: cacheDir ∧ isPart name = true ∧ ∀ entry, tree.lookup path = some entry → ∃ bytes, entry = .file bytes) ∨
    ∃ rest name, path = rest ++ name :: cacheDir ∧ tree.lookup (name :: cacheDir) = none

section
variable {cacheDir : Path} {tree tree' : Tree}

theorem free_of_none {name : OsString} (h : tree.lookup (name :: cacheDir) = none) (rest : Path) :
    Free cacheDir tree (rest ++ name :: cacheDir) :=
  .inr ⟨rest, name, rfl, h⟩

theorem lookup_kept (h : Changes (Free cacheDir tree) tree tree') {path : Path} {entry : Entry} (hentry : tree.lookup path = some entry)
    (hpart : ∀ name bytes, path = name :: cacheDir → entry = .file bytes → isPart name = false) : tree'.lookup path = some entry := by
  rw [h.lookup, hentry]
  rintro (⟨name, rfl, hname, hfile⟩ | ⟨rest, name, rfl, hnone⟩)
  · obtain ⟨bytes, rfl⟩ := hfile entry hentry
    rw [hpart name bytes rfl rfl] at hname
    cases hname
  · rw [Tree.lookup_below hnone] at hentry
    cases hentry

theorem leavesAlone (h : Changes (Free cacheDir tree) tree tree') : LeavesAlone cacheDir tree tree' := by
  refine ⟨fun rest bytes _ hpart hfile => ?_, fun rest below bytes hrest hdir hnew => ?_⟩
  · exact lookup_kept h hfile fun name _ he _ => hpart name (List.append_cancel_right (he : rest ++ cacheDir = [name] ++ cacheDir))
  · rw [h.lookup, hnew]
    · simp
    · rintro (⟨name, he, -, -⟩ | ⟨rest', name, he, hnone⟩)
      · have hlength := congrArg List.length he
        rw [List.length_append, List.length_append, List.length_cons] at hlength
        have hbelow : below = [] := by
          rw [← List.length_eq_zero_iff]
          have := List.length_pos_iff.mpr hrest
          omega
        rw [hbelow, List.nil_append, hdir] at hnew
        cases hnew
      · obtain ⟨init, last, rfl⟩ := (List.eq_nil_or_concat rest).resolve_left hrest
        rw [List.concat_eq_append, List.append_assoc, List.singleton_append] at hdir he
        rw [← List.append_assoc] at he
        obtain ⟨-, hlast⟩ := List.append_inj' he rfl
        cases hlast
        rw [Tree.lookup_below hnone] at hdir
        cases hdir

end

/-! ## Names -/

theorem osString_injective : Function.Injective osString := by
  intro s t h
  have harray : s.toUTF8.data = t.toUTF8.data := Array.toList_inj.mp h
  exact String.toByteArray_inj.mp (ByteArray.ext harray)

theorem numbered_injective (filename : List OsString) : Function.Injective (numbered filename) := by
  intro i j h
  unfold numbered at h
  simp only [List.append_assoc, List.append_cancel_left_eq] at h
  have hdigits : toString i = toString j := by
    rw [← List.append_assoc, ← List.append_assoc] at h
    exact osString_injective (List.append_cancel_right (List.append_cancel_right h))
  have hparse := congrArg (fun s : String => Nat.ofDigitChars 10 s.toList 0) hdigits
  simpa [Nat.toString_eq_repr, Nat.repr, Nat.ofDigitChars_ten_toDigits] using hparse

section
variable {cacheDir : Path} {tree : Tree} (hcache : tree.lookup cacheDir = some .dir)
include hcache

/-- Among one more candidate than the directory has names there is a free one. -/
theorem exists_free (filename : List OsString) :
    ∃ i < (tree.names cacheDir).length + 1, tree.isPresent (numbered filename (i + 1) :: cacheDir) = false := by
  by_contra hall
  push Not at hall
  let candidates := (List.range ((tree.names cacheDir).length + 1)).map fun i => numbered filename (i + 1)
  have hnodup : candidates.Nodup :=
    List.nodup_range.map fun i j h => Nat.succ.inj (numbered_injective filename h)
  have hsub : candidates ⊆ tree.names cacheDir := by
    intro name hname
    obtain ⟨i, hi, rfl⟩ := List.mem_map.mp hname
    have hpresent := hall i (List.mem_range.mp hi)
    exact (tree.mem_names _ _).mpr (Tree.lookup_of_isPresent hcache (Bool.eq_true_of_not_eq_false hpresent))
  have hlength := (List.subperm_of_subset hnodup hsub).length_le
  rw [List.length_map, List.length_range] at hlength
  omega

end

theorem firstFree_free {tree : Tree} {candidate : Nat → Path} {left idx : Nat}
    (h : ∃ i < left + 1, tree.isPresent (candidate (i + idx)) = false) : tree.isPresent (firstFree tree candidate left idx) = false := by
  induction left generalizing idx with
  | zero =>
    obtain ⟨i, hi, hfree⟩ := h
    obtain rfl : i = 0 := by omega
    rwa [Nat.zero_add] at hfree
  | succ left ih =>
    rw [firstFree]
    split
    · rename_i htaken
      refine ih ?_
      obtain ⟨i, hi, hfree⟩ := h
      cases i with
      | zero =>
        rw [Nat.zero_add, htaken] at hfree
        cases hfree
      | succ i => exact ⟨i, by omega, by rwa [Nat.add_right_comm, Nat.add_assoc] at hfree⟩
    · rename_i hfree
      exact Bool.eq_false_of_not_eq_true hfree

theorem firstFree_mem (tree : Tree) (candidate : Nat → Path) (left idx : Nat) :
    ∃ i, firstFree tree candidate left idx = candidate i := by
  induction left generalizing idx with
  | zero => exact ⟨idx, rfl⟩
  | succ left ih =>
    rw [firstFree]
    split
    · exact ih (idx + 1)
    · exact ⟨idx, rfl⟩

/-- The destination is a name in the cache under which nothing is found. -/
theorem uniqueDestination_spec {cacheDir : Path} {tree : Tree} (hcache : tree.lookup cacheDir = some .dir) (filename : OsString) :
    ∃ name, uniqueDestination tree cacheDir [filename] = name :: cacheDir ∧ tree.isPresent (name :: cacheDir) = false := by
  unfold uniqueDestination
  dsimp only
  split
  · rename_i hfree
    exact ⟨filename, rfl, by simpa using hfree⟩
  · obtain ⟨i, hi⟩ := firstFree_mem tree (fun idx => numbered [filename] idx :: cacheDir) (tree.names cacheDir).length 1
    refine ⟨numbered [filename] i, hi, ?_⟩
    rw [← hi]
    exact firstFree_free (exists_free hcache [filename])

/-! ## Copies -/

section
variable {at_ : Path → Prop} {tree : Tree} {name : OsString} {dir : Path}

/-- What is copied stays below the destination, if no link there leads away. -/
theorem does_copyDir (depth : Nat) {source : Path} (hdir : tree.lookup dir = some .dir)
    (hlinks : ∀ rest target, tree.lookup (rest ++ name :: dir) ≠ some (.link target)) (hat : ∀ rest, at_ (rest ++ name :: dir)) :
    Does at_ (copyDir depth source (name :: dir)) tree fun _ _ => True := by
  induction depth generalizing source name dir tree with
  | zero => exact does_throw _
  | succ depth ih =>
    refine (does_createDirAll hdir (fun _ => hlinks []) fun _ => hat []).bind fun _ made hmade hdone => does_get ?_
    split
    · exact does_throw _
    · refine does_forM fun entry _ mid hmid => ?_
      have hdest := hmid.dir hdone.1
      have hlinks' (rest : Path) := (hmade.trans hmid).no_link (hlinks rest)
      obtain ⟨child, kind⟩ := entry
      cases kind with
      | dir =>
        refine ih hdest (fun rest target => ?_) fun rest => ?_
        · rw [List.append_cons]
          exact hlinks' _ target
        · rw [List.append_cons]
          exact hat _
      | file bytes => exact does_copyFile hdest (hlinks' [child]) fun _ => hat [child]
      | link target => exact does_pure trivial

theorem does_copySafetensorsFileLayout {source : Path} (hdest : tree.lookup (name :: dir) = some .dir)
    (hlinks : ∀ rest target, tree.lookup (rest ++ name :: dir) ≠ some (.link target)) (hat : ∀ rest, at_ (rest ++ name :: dir)) :
    Does at_ (copySafetensorsFileLayout source (name :: dir)) tree fun _ _ => True := by
  refine does_get ((does_liftResult _).bind fun _ same _ h => ?_)
  obtain ⟨-, rfl⟩ := h
  cases source with
  | nil => exact does_throw _
  | cons filename parent =>
    refine (does_copyFile hdest (hlinks [filename]) fun _ => hat [filename]).bind fun _ copied hcopied _ => ?_
    refine does_forM fun sidecar _ mid hmid => ?_
    have hchanges := hcopied.trans hmid
    exact does_copyFile (hchanges.dir hdest) (hchanges.no_link (hlinks [sidecar])) fun _ => hat [sidecar]

end

/-! ## Calls that take care -/

section
variable (cacheDir : Path) (tree : Tree)

/-- A single safetensors file is not copied where a directory is already, and another file not
through a link that leads nowhere yet. -/
def CarefulCopy : Path → Prop
  | [] => True
  | filename :: parent => tree.isDir (filename :: parent) = false →
    if isSafetensorsPath (filename :: parent) = true
    then tree.isDir (withExtension [] (uniqueDestination tree cacheDir [filename])) = false
    else ∀ target, tree.lookup (uniqueDestination tree cacheDir [filename]) ≠ some (.link target)

/-- The path is not of an interrupted download. -/
def Whole (real : Path) : Prop :=
  ∀ name bytes, real = name :: cacheDir → tree.lookup real = some (.file bytes) → isPart name = false

/-- What is registered where it is is neither the cache nor, by a link, an interrupted download in it. -/
def CarefulInPlace (path : Path) : Prop :=
  ∀ p ∈ path :: sidecars.map (· :: path), ∀ real, tree.resolve p = some real → real ≠ cacheDir ∧ Whole cacheDir tree real

/-- A download is stored in the cache itself and through no link. -/
def CarefulDownload (url nameHint : String) : Prop :=
  ∀ filename, downloadFilename url nameHint = .ok filename → ∃ name, components filename = [name] ∧
    (∀ target, tree.lookup (uniqueDestination tree cacheDir [name]) ≠ some (.link target)) ∧
    ∀ target, tree.lookup (withExtension (osString "part") (uniqueDestination tree cacheDir [name])) ≠ some (.link target)

def Careful (req : ModelInstallRequest) : Prop :=
  match req.source with
  | .localPath path => if req.copyToCache = true then CarefulCopy cacheDir tree path else CarefulInPlace cacheDir tree path
  | .directUrl url => CarefulDownload cacheDir tree url req.alias_
  | .huggingFace repo filename revision =>
    ∀ url, huggingfaceDownloadUrl repo filename revision = .ok url → CarefulDownload cacheDir tree url filename

end

theorem withExtension_cons (ext name : OsString) (dir : Path) : ∃ stem,
    withExtension ext (name :: dir) = (if ext = [] then stem else stem ++ [46] ++ ext) :: dir := by
  have hstem : ∃ stem, fileStem name = some stem := by
    unfold fileStem rsplitFileAtDot
    dsimp only
    split
    · exact ⟨_, rfl⟩
    · split
      · split <;> exact ⟨_, rfl⟩
      · exact ⟨_, rfl⟩
  obtain ⟨stem, hstem⟩ := hstem
  refine ⟨stem, ?_⟩
  rw [withExtension, hstem]

theorem isPart_extension (stem : OsString) : isPart (stem ++ [46] ++ osString "part") = true := by
  have hpart : [46] ++ osString "part" = osString ".part" := by decide +kernel
  rw [isPart, List.append_assoc, hpart]
  exact List.isSuffixOf_iff_suffix.mpr (List.suffix_append _ _)

section
variable {cacheDir : Path} {tree : Tree} (hcache : tree.lookup cacheDir = some .dir)
include hcache

theorem does_copyDir_taken {at_ : Path → Prop} {name : OsString} (depth : Nat) (source : Path)
    (htaken : tree.lookup (name :: cacheDir) ≠ none) (hnot : tree.isDir (name :: cacheDir) = false) :
    Does at_ (copyDir depth source (name :: cacheDir)) tree fun _ _ => False := by
  cases depth with
  | zero => exact does_throw _
  | succ depth =>
    refine (does_createDirAll hcache (fun h => ?_) fun h => absurd h htaken).bind fun _ _ _ hdone => absurd (hdone.2 hnot) htaken
    rw [hnot] at h
    cases h

/-- What is registered is the path itself, or new in the cache. -/
theorem does_registerLocalModel {path : Path} {copyToCache : Bool} (hcareful : copyToCache = true → CarefulCopy cacheDir tree path) :
    Does (Free cacheDir tree) (registerLocalModel path cacheDir copyToCache) tree fun result tree' =>
      copyToCache = false ∧ result = path ∧ tree' = tree ∨
        ∃ name, result = name :: cacheDir ∧ tree.lookup (name :: cacheDir) = none := by
  refine does_get ((does_liftResult _).bind fun _ same _ h => ?_)
  obtain ⟨-, rfl⟩ := h
  cases copyToCache with
  | false => exact does_pure (.inl ⟨rfl, rfl, rfl⟩)
  | true =>
    refine (does_createDirAll_dir hcache).bind fun _ same _ he => ?_
    subst he
    cases path with
    | nil => exact does_throw _
    | cons filename parent =>
      refine does_get ?_
      have hcareful := hcareful rfl
      obtain ⟨name, hdest, hfree⟩ := uniqueDestination_spec hcache filename
      rw [CarefulCopy, hdest] at hcareful
      rw [hdest]
      dsimp only
      split
      · -- a directory
        by_cases hnone : same.lookup (name :: cacheDir) = none
        · refine (does_copyDir maxDepth hcache (fun rest target => ?_) (free_of_none hnone)).bind fun _ _ _ _ => ?_
          · rw [Tree.lookup_below hnone]
            simp
          · exact does_pure (.inr ⟨name, rfl, hnone⟩)
        · exact (does_copyDir_taken hcache maxDepth _ hnone (Tree.isDir_of_isPresent hfree)).bind fun _ _ _ h => h.elim
      · rename_i hfile
        have hcareful := hcareful (Bool.eq_false_of_not_eq_true hfile)
        split
        · -- a single safetensors file
          rename_i hsafetensors
          rw [if_pos hsafetensors] at hcareful
          obtain ⟨stem, hstem⟩ := withExtension_cons [] name cacheDir
          rw [if_pos rfl] at hstem
          rw [hstem] at hcareful ⊢
          refine (does_createDirAll hcache (fun h => ?_) fun hnone => free_of_none hnone []).bind fun _ made hmade hdone => ?_
          · rw [hcareful] at h
            cases h
          have hnone := hdone.2 hcareful
          have hlinks (rest : Path) : ∀ target, made.lookup (rest ++ stem :: cacheDir) ≠ some (.link target) := by
            refine hmade.no_link fun target => ?_
            simp [Tree.lookup_below hnone]
          refine (does_copySafetensorsFileLayout hdone.1 hlinks (free_of_none hnone)).bind fun _ _ _ _ => ?_
          exact does_pure (.inr ⟨stem, rfl, hnone⟩)
        · -- another file
          rename_i hother
          rw [if_neg hother] at hcareful
          have hnone := Tree.lookup_eq_none hcache hfree hcareful
          refine (does_copyFile hcache hcareful fun _ => free_of_none hnone []).bind fun _ _ _ _ => ?_
          exact does_pure (.inr ⟨name, rfl, hnone⟩)

variable (sha256 : List UInt8 → String)

omit hcache in
theorem does_verifyDownloadedModel {at_ : Path → Prop} {mid : Tree} {part name : OsString} {expected : String}
    (hdir : mid.lookup cacheDir = some .dir) (hlink : ∀ target, mid.lookup (part :: cacheDir) ≠ some (.link target))
    (hpart : mid.lookup (part :: cacheDir) ≠ some .dir → at_ (part :: cacheDir)) (hdest : at_ (name :: cacheDir)) :
    Does at_ (verifyDownloadedModel sha256 (part :: cacheDir) (name :: cacheDir) expected) mid fun _ _ => True := by
  unfold verifyDownloadedModel
  split
  · exact does_throw _
  · refine (does_liftResult _).bind fun _ same _ h => ?_
    obtain ⟨-, rfl⟩ := h
    split
    · exact does_throw _
    · refine (does_liftResult _).bind fun _ same _ h => ?_
      obtain ⟨-, rfl⟩ := h
      refine does_get ((does_liftResult _).bind fun _ same _ h => ?_)
      obtain ⟨-, rfl⟩ := h
      split
      · exact (does_attempt (does_removeFile hdir hpart)).bind fun _ _ _ _ => does_throw _
      · exact does_rename hdir hlink hpart fun _ => hdest

theorem does_downloadModel {network : Network} {url nameHint expected : String} (hcareful : CarefulDownload cacheDir tree url nameHint) :
    Does (Free cacheDir tree) (downloadModel sha256 network url cacheDir nameHint expected) tree fun result _ =>
      ∃ name, result = name :: cacheDir ∧ tree.lookup (name :: cacheDir) = none := by
  refine (does_liftResult _).bind fun _ same _ h => ?_
  obtain ⟨-, rfl⟩ := h
  refine (does_liftResult _).bind fun _ same _ h => ?_
  obtain ⟨-, rfl⟩ := h
  refine (does_liftResult _).bind fun digest same _ h => ?_
  obtain ⟨-, rfl⟩ := h
  refine (does_createDirAll_dir hcache).bind fun _ same _ he => ?_
  subst he
  refine (does_liftResult _).bind fun filename same _ h => ?_
  obtain ⟨hfilename, rfl⟩ := h
  obtain ⟨file, hcomponents, hlink, hlinkPart⟩ := hcareful filename hfilename
  obtain ⟨name, hdest, hfree⟩ := uniqueDestination_spec hcache file
  obtain ⟨stem, hstem⟩ := withExtension_cons (osString "part") name cacheDir
  rw [if_neg (by decide +kernel)] at hstem
  rw [hdest] at hlink hlinkPart
  rw [hstem] at hlinkPart
  refine does_get ?_
  dsimp only
  rw [hcomponents, hdest, hstem]
  generalize hpart : stem ++ [46] ++ osString "part" = part at hlinkPart ⊢
  have hnone := Tree.lookup_eq_none hcache hfree hlink
  -- the part is free if it is no directory, in this tree and in those that come of it
  have hat {mid : Tree} (hmid : Changes (Free cacheDir same) same mid) (hleaf : mid.lookup (part :: cacheDir) ≠ some .dir) :
      Free cacheDir same (part :: cacheDir) := by
    refine .inl ⟨part, rfl, hpart ▸ isPart_extension stem, fun entry hentry => ?_⟩
    cases entry with
    | file bytes => exact ⟨bytes, rfl⟩
    | dir => exact absurd (hmid.dir hentry) hleaf
    | link target => exact absurd hentry (hlinkPart target)
  refine (does_liftResult _).bind fun response same' _ h => ?_
  obtain ⟨-, rfl⟩ := h
  have hremoves {mid : Tree} (hmid : Changes (Free cacheDir same') same' mid) :
      Does (Free cacheDir same') (attempt (removeFile (part :: cacheDir) "") >>= fun _ => throw s!"read model download from {url}") mid
        fun result _ => ∃ name, result = name :: cacheDir ∧ same'.lookup (name :: cacheDir) = none :=
    (does_attempt (does_removeFile (hmid.dir hcache) (hat hmid))).bind fun _ _ _ _ => does_throw _
  have hverifies {mid : Tree} (hmid : Changes (Free cacheDir same') same' mid) :
      Does (Free cacheDir same') (verifyDownloadedModel sha256 (part :: cacheDir) (name :: cacheDir) digest >>= fun _ =>
        pure (name :: cacheDir)) mid fun result _ => ∃ name, result = name :: cacheDir ∧ same'.lookup (name :: cacheDir) = none := by
    refine (does_verifyDownloadedModel sha256 (hmid.dir hcache) (hmid.no_link hlinkPart) (hat hmid) (free_of_none hnone [])).bind
      fun _ _ _ _ => ?_
    exact does_pure ⟨name, rfl, hnone⟩
  split
  · refine (does_appendFile hcache hlinkPart (hat (.refl _))).bind fun _ mid hmid _ => ?_
    split
    · exact hremoves hmid
    · exact hverifies hmid
  · refine (does_createFile hcache hlinkPart (hat (.refl _))).bind fun _ mid hmid _ => ?_
    split
    · exact hremoves hmid
    · exact hverifies hmid

/-- What a call fetches is a path outside that it was given, or new in the cache. -/
theorem does_fetch {network : Network} {req : ModelInstallRequest} {expected : Option String} (hcareful : Careful cacheDir tree req) :
    Does (Free cacheDir tree) (fetch sha256 network cacheDir req expected) tree fun result tree' =>
      CarefulInPlace cacheDir tree result ∧ tree' = tree ∨ ∃ name, result = name :: cacheDir ∧ tree.lookup (name :: cacheDir) = none := by
  unfold Careful at hcareful
  unfold fetch
  split
  · rename_i path hsource
    rw [hsource] at hcareful
    dsimp only at hcareful
    refine (does_registerLocalModel hcache fun hcopy => ?_).mono (fun _ h => h) fun result tree' _ h => ?_
    · rwa [if_pos hcopy] at hcareful
    · rcases h with ⟨hcopy, rfl, rfl⟩ | hnew
      · rw [hcopy, if_neg Bool.false_ne_true] at hcareful
        exact .inl ⟨hcareful, rfl⟩
      · exact .inr hnew
  · rename_i url hsource
    rw [hsource] at hcareful
    split
    · exact does_throw _
    · exact (does_downloadModel hcache sha256 hcareful).mono (fun _ h => h) fun _ _ _ h => .inr h
  · rename_i repo filename revision hsource
    rw [hsource] at hcareful
    refine (does_liftResult _).bind fun url same _ h => ?_
    obtain ⟨hurl, rfl⟩ := h
    split
    · exact does_throw _
    · exact (does_downloadModel hcache sha256 (hcareful url hurl)).mono (fun _ h => h) fun _ _ _ h => .inr h

end

/-! ## The digest of an artifact -/

/-- The path leads to an artifact of which the files do not change while others are installed. -/
def Settled (cacheDir : Path) (tree : Tree) (path : Path) : Prop :=
  ∃ real entry, tree.resolve path = some real ∧ tree.lookup real = some entry ∧ real ≠ cacheDir ∧ Whole cacheDir tree real ∧
    (entry = .dir → ∀ sidecar ∈ sidecars, ∃ file bytes, tree.resolve (sidecar :: path) = some file ∧
      tree.lookup file = some (.file bytes) ∧ Whole cacheDir tree file)

section
variable {cacheDir : Path} {tree tree' : Tree} {path real : Path} {entry : Entry}

theorem isFile_iff : tree.isFile path = true ↔ ∃ real bytes, tree.resolve path = some real ∧ tree.lookup real = some (.file bytes) := by
  unfold Tree.isFile Tree.metadata
  constructor
  · intro h
    split at h
    · rename_i bytes hbytes
      obtain ⟨real, hreal, hfile⟩ := Option.bind_eq_some_iff.mp hbytes
      exact ⟨real, bytes, hreal, hfile⟩
    · cases h
  · rintro ⟨real, bytes, hreal, hfile⟩
    rw [hreal, Option.bind_some, hfile]

theorem resolve_kept (h : Changes (Free cacheDir tree) tree tree') (hreal : tree.resolve path = some real)
    (hentry : tree.lookup real = some entry) (hwhole : Whole cacheDir tree real) :
    tree'.resolve path = some real ∧ tree'.lookup real = some entry := by
  have hkept : tree'.lookup real = some entry := lookup_kept h hentry fun name bytes he hfile => hwhole name bytes he (hfile ▸ hentry)
  refine ⟨Tree.resolve_of_kept (fun p hp => h.dir hp) (fun p target hp => lookup_kept h hp nofun) ?_ ?_ hreal, hkept⟩
  · rw [hkept, hentry]
  · rw [hentry]
    exact Option.some_ne_none _

theorem not_free_below (hdir : tree.lookup real = some .dir) (hne : real ≠ cacheDir) (name : OsString) :
    ¬ Free cacheDir tree (name :: real) := by
  rintro (⟨other, he, -, -⟩ | ⟨rest, other, he, hnone⟩)
  · exact hne (List.cons.inj he).2
  · cases rest with
    | nil => exact hne (List.cons.inj he).2
    | cons first rest =>
      have he : real = rest ++ other :: cacheDir := (List.cons.inj he).2
      rw [he, Tree.lookup_below hnone] at hdir
      cases hdir

theorem readDir_kept (h : Changes (Free cacheDir tree) tree tree') (hreal : tree.resolve path = some real)
    (hdir : tree.lookup real = some .dir) (hne : real ≠ cacheDir) : tree'.readDir path = tree.readDir path := by
  have hresolve := (resolve_kept h hreal hdir fun name bytes _ hfile => by rw [hdir] at hfile; cases hfile).1
  unfold Tree.readDir
  rw [hresolve, hreal]
  dsimp only
  rw [h.names (not_free_below hdir hne)]
  congr 1
  funext name
  rw [h.lookup (not_free_below hdir hne name)]

theorem Settled.kept (hsettled : Settled cacheDir tree path) (h : Changes (Free cacheDir tree) tree tree') :
    Settled cacheDir tree' path := by
  obtain ⟨real, entry, hreal, hentry, hne, hwhole, hsidecars⟩ := hsettled
  have htransfer {file : Path} {entry : Entry} (hentry : tree.lookup file = some entry) (hwhole : Whole cacheDir tree file)
      (hentry' : tree'.lookup file = some entry) : Whole cacheDir tree' file :=
    fun name bytes he hfile => hwhole name bytes he (hentry.trans (hentry'.symm.trans hfile))
  obtain ⟨hreal', hentry'⟩ := resolve_kept h hreal hentry hwhole
  refine ⟨real, entry, hreal', hentry', hne, htransfer hentry hwhole hentry', fun hdir sidecar hsidecar => ?_⟩
  obtain ⟨file, bytes, hfile, hbytes, hwholeFile⟩ := hsidecars hdir sidecar hsidecar
  obtain ⟨hfile', hbytes'⟩ := resolve_kept h hfile hbytes hwholeFile
  exact ⟨file, bytes, hfile', hbytes', htransfer hbytes hwholeFile hbytes'⟩

/-- An artifact that is settled keeps its digest. -/
theorem Settled.sha256 (hsettled : Settled cacheDir tree path) (h : Changes (Free cacheDir tree) tree tree')
    (sha256 : List UInt8 → String) : sha256ModelArtifact sha256 tree' path = sha256ModelArtifact sha256 tree path := by
  obtain ⟨real, entry, hreal, hentry, hne, hwhole, hsidecars⟩ := hsettled
  obtain ⟨hreal', hentry'⟩ := resolve_kept h hreal hentry hwhole
  have hmeta : tree.metadata path = some entry := by rw [Tree.metadata, hreal, Option.bind_some, hentry]
  have hmeta' : tree'.metadata path = some entry := by rw [Tree.metadata, hreal', Option.bind_some, hentry']
  unfold sha256ModelArtifact
  rw [hmeta, hmeta']
  cases entry with
  | file bytes => rfl
  | link target => exact absurd hentry (Tree.resolve_not_link hreal target)
  | dir =>
    have hread := readDir_kept h hreal hentry hne
    have hfind : (sidecars.find? fun required => !tree.isFile (required :: path)) = none := by
      refine List.find?_eq_none.mpr fun sidecar hsidecar => ?_
      obtain ⟨file, bytes, hfile, hbytes, -⟩ := hsidecars rfl sidecar hsidecar
      rw [isFile_iff.mpr ⟨file, bytes, hfile, hbytes⟩]
      decide
    have hfind' : (sidecars.find? fun required => !tree'.isFile (required :: path)) = none := by
      refine List.find?_eq_none.mpr fun sidecar hsidecar => ?_
      obtain ⟨file, bytes, hfile, hbytes, hwholeFile⟩ := hsidecars rfl sidecar hsidecar
      obtain ⟨hfile', hbytes'⟩ := resolve_kept h hfile hbytes hwholeFile
      rw [isFile_iff.mpr ⟨file, bytes, hfile', hbytes'⟩]
      decide
    unfold ensureSafetensorsLayout artifactFiles
    rw [hfind, hfind', hread]

end

theorem not_isPart {name : OsString} (h : isSupportedModelFilename name = true) : isPart name = false := by
  by_contra hpart
  obtain ⟨stem, rfl⟩ := List.isSuffixOf_iff_suffix.mp (Bool.eq_true_of_not_eq_false hpart)
  have hlast : (toAsciiLowercase (stem ++ osString ".part")).getLast? = some 116 := by
    rw [toAsciiLowercase, List.map_append, List.getLast?_append]
    rfl
  have hends {suffix : OsString} {b : UInt8} (hb : suffix.getLast? = some b)
      (hsuffix : suffix.isSuffixOf (toAsciiLowercase (stem ++ osString ".part")) = true) : b = 116 := by
    obtain ⟨start, he⟩ := List.isSuffixOf_iff_suffix.mp hsuffix
    rw [← he, List.getLast?_append, hb] at hlast
    exact Option.some.inj hlast
  rcases Bool.or_eq_true_iff.mp h with h | h
  · exact absurd (hends (b := 102) (by decide +kernel) h) (by decide)
  · exact absurd (hends (b := 115) (by decide +kernel) h) (by decide)

section
variable {cacheDir : Path} {tree tree' : Tree}

theorem isFile_of_layout {path : Path} (h : ensureSafetensorsLayout tree path = .ok ()) :
    ∀ sidecar ∈ sidecars, tree.isFile (sidecar :: path) = true := by
  intro sidecar hsidecar
  by_contra hmissing
  have hfind : ((sidecars.find? fun required => !tree.isFile (required :: path))).isSome = true :=
    List.find?_isSome.mpr ⟨sidecar, hsidecar, by simpa using hmissing⟩
  unfold ensureSafetensorsLayout at h
  split at h
  · cases h
  · rename_i hnone
    rw [hnone] at hfind
    cases hfind

/-- What a call has fetched and found to be supported is settled. -/
theorem settled {path : Path} (hcache : tree'.lookup cacheDir = some .dir) (hsupported : ensureSupportedArtifactPath tree' path = .ok ())
    (hfetched : CarefulInPlace cacheDir tree' path ∨
      ∃ name, path = name :: cacheDir ∧ ∀ rest target, tree'.lookup (rest ++ name :: cacheDir) ≠ some (.link target)) :
    Settled cacheDir tree' path := by
  have hfound : ∃ real entry, tree'.resolve path = some real ∧ tree'.lookup real = some entry := by
    cases hmeta : tree'.metadata path with
    | none =>
      unfold ensureSupportedArtifactPath at hsupported
      rw [hmeta] at hsupported
      cases hsupported
    | some entry =>
      obtain ⟨real, hreal, hentry⟩ := Option.bind_eq_some_iff.mp hmeta
      exact ⟨real, entry, hreal, hentry⟩
  obtain ⟨real, entry, hreal, hentry⟩ := hfound
  have hmeta : tree'.metadata path = some entry := by rw [Tree.metadata, hreal, Option.bind_some, hentry]
  have hsidecars : entry = .dir → ∀ sidecar ∈ sidecars, ∃ file bytes, tree'.resolve (sidecar :: path) = some file ∧
      tree'.lookup file = some (.file bytes) := by
    rintro rfl sidecar hsidecar
    unfold ensureSupportedArtifactPath at hsupported
    rw [hmeta] at hsupported
    exact isFile_iff.mp (isFile_of_layout hsupported sidecar hsidecar)
  rcases hfetched with hcareful | ⟨name, rfl, hlinks⟩
  · obtain ⟨hne, hwhole⟩ := hcareful path List.mem_cons_self real hreal
    refine ⟨real, entry, hreal, hentry, hne, hwhole, fun hdir sidecar hsidecar => ?_⟩
    obtain ⟨file, bytes, hfile, hbytes⟩ := hsidecars hdir sidecar hsidecar
    exact ⟨file, bytes, hfile, hbytes, (hcareful _ (List.mem_cons_of_mem _ (List.mem_map_of_mem hsidecar)) file hfile).2⟩
  · obtain rfl : real = name :: cacheDir := Option.some.inj (hreal.symm.trans (Tree.resolve_entry hcache (hlinks [])))
    refine ⟨_, entry, hreal, hentry, List.cons_ne_self _ _, fun other bytes he hbytes => ?_, fun hdir sidecar hsidecar => ?_⟩
    · cases he
      cases hentry.symm.trans hbytes
      unfold ensureSupportedArtifactPath at hsupported
      rw [hmeta] at hsupported
      dsimp only at hsupported
      split at hsupported
      · cases hsupported
      · rename_i hname
        obtain ⟨_, hsupported, -⟩ := ok_of_bind hsupported
        have hname : toStr name = some _ := hname
        unfold toStr at hname
        split at hname
        · cases hname
          unfold ensureSupportedModelName at hsupported
          split at hsupported
          · rename_i h
            exact not_isPart h
          · cases hsupported
        · cases hname
    · subst hdir
      obtain ⟨file, bytes, hfile, hbytes⟩ := hsidecars rfl sidecar hsidecar
      refine ⟨file, bytes, hfile, hbytes, fun other bytes he _ => ?_⟩
      obtain rfl : file = sidecar :: name :: cacheDir := Option.some.inj (hfile.symm.trans (Tree.resolve_entry hentry (hlinks [sidecar])))
      exact absurd (List.cons.inj he).2 (List.cons_ne_self _ _)

theorem does_installModel (sha256 : List UInt8 → String) (hcache : tree.lookup cacheDir = some .dir) {network : Network}
    {req : ModelInstallRequest} (hcareful : Careful cacheDir tree req) :
    Does (Free cacheDir tree) (installModel sha256 network cacheDir req) tree fun model tree' =>
      Settled cacheDir tree' model.path ∧ sha256ModelArtifact sha256 tree' model.path = .ok model.sha256 := by
  refine (does_liftResult _).bind fun plan same _ h => ?_
  obtain ⟨-, rfl⟩ := h
  refine (does_createDirAll_dir hcache).bind fun _ same _ he => ?_
  subst he
  refine (does_fetch hcache sha256 hcareful).bind fun path mid hmid hfetched => does_get ?_
  refine (does_liftResult _).bind fun _ mid' _ h => ?_
  obtain ⟨hsupported, rfl⟩ := h
  have hsettled : Settled cacheDir mid' path := by
    refine settled (hmid.dir hcache) hsupported ?_
    rcases hfetched with ⟨hcareful, rfl⟩ | ⟨name, rfl, hnone⟩
    · exact .inl hcareful
    · refine .inr ⟨name, rfl, fun rest => hmid.no_link fun target => ?_⟩
      simp [Tree.lookup_below hnone]
  refine (does_liftResult _).bind fun actual mid _ h => ?_
  obtain ⟨hsha, rfl⟩ := h
  dsimp only
  split
  · exact does_throw _
  · refine (does_liftResult _).bind fun bytes mid _ h => ?_
    obtain ⟨-, rfl⟩ := h
    exact does_pure ⟨hsettled, hsha⟩

end

/-! ## Runs -/

section
variable (sha256 : List UInt8 → String) (cacheDir : Path)

/-- Every call takes care in the tree in which it runs. -/
def CarefulRun (tree : Tree) : List Call → Prop
  | [] => True
  | call :: calls => Careful cacheDir tree call.request ∧ CarefulRun (call.run sha256 cacheDir tree).2 calls

/-- In a run each call leaves the other files alone, and what it has installed has the digest
that it reported after all later calls. -/
structure Kept (tree : Tree) (calls : List Call) : Prop where
  alone : ∀ before call after, calls = before ++ call :: after →
    LeavesAlone cacheDir (installs sha256 cacheDir tree before) (installs sha256 cacheDir tree (before ++ [call]))
  digest : ∀ before call between after, calls = before ++ call :: (between ++ after) →
    ∀ model, (call.run sha256 cacheDir (installs sha256 cacheDir tree before)).1 = .ok model →
      sha256ModelArtifact sha256 (installs sha256 cacheDir tree (before ++ call :: between)) model.path = .ok model.sha256

variable {sha256 cacheDir} {tree : Tree}

variable (sha256) in
theorem Call.changes {call : Call} (hcache : tree.lookup cacheDir = some .dir) (hcareful : Careful cacheDir tree call.request) :
    Changes (Free cacheDir tree) tree (call.run sha256 cacheDir tree).2 :=
  (does_installModel sha256 hcache hcareful).1

theorem Call.settled {call : Call} (hcache : tree.lookup cacheDir = some .dir) (hcareful : Careful cacheDir tree call.request)
    {model : InstalledModel} (h : (call.run sha256 cacheDir tree).1 = .ok model) :
    Settled cacheDir (call.run sha256 cacheDir tree).2 model.path ∧
      sha256ModelArtifact sha256 (call.run sha256 cacheDir tree).2 model.path = .ok model.sha256 :=
  (does_installModel sha256 hcache hcareful).2 model h

theorem installs_nil : installs sha256 cacheDir tree [] = tree := rfl

theorem installs_cons (call : Call) (calls : List Call) :
    installs sha256 cacheDir tree (call :: calls) = installs sha256 cacheDir (call.run sha256 cacheDir tree).2 calls := rfl

theorem Settled.run {calls : List Call} (hcache : tree.lookup cacheDir = some .dir) (hcareful : CarefulRun sha256 cacheDir tree calls)
    {path : Path} (hsettled : Settled cacheDir tree path) : ∀ before after, calls = before ++ after →
      sha256ModelArtifact sha256 (installs sha256 cacheDir tree before) path = sha256ModelArtifact sha256 tree path := by
  induction calls generalizing tree with
  | nil =>
    intro before after hsplit
    obtain ⟨rfl, -⟩ := List.append_eq_nil_iff.mp hsplit.symm
    rfl
  | cons call calls ih =>
    intro before after hsplit
    cases before with
    | nil => rfl
    | cons first before =>
      rw [List.cons_append, List.cons.injEq] at hsplit
      obtain ⟨rfl, hsplit⟩ := hsplit
      have hchanges := Call.changes sha256 hcache hcareful.1
      refine (ih (hchanges.dir hcache) hcareful.2 (hsettled.kept hchanges) before after hsplit).trans ?_
      exact hsettled.sha256 hchanges sha256

end

/-- Calls that take care leave the other models alone. -/
theorem installs_kept (sha256 : List UInt8 → String) {cacheDir : Path} {tree : Tree} (hcache : tree.lookup cacheDir = some .dir)
    {calls : List Call} (hcareful : CarefulRun sha256 cacheDir tree calls) : Kept sha256 cacheDir tree calls := by
  induction calls generalizing tree with
  | nil =>
    refine ⟨fun before call after hsplit => ?_, fun before call between after hsplit => ?_⟩
    all_goals exact absurd hsplit (List.append_ne_nil_of_right_ne_nil _ (List.cons_ne_nil _ _)).symm
  | cons call calls ih =>
    have hchanges := Call.changes sha256 hcache hcareful.1
    have hcache' := hchanges.dir hcache
    obtain ⟨halone, hdigest⟩ := ih hcache' hcareful.2
    refine ⟨fun before other after hsplit => ?_, fun before other between after hsplit model hmodel => ?_⟩
    · cases before with
      | nil =>
        cases hsplit
        exact leavesAlone hchanges
      | cons first before =>
        rw [List.cons_append, List.cons.injEq] at hsplit
        obtain ⟨rfl, hsplit⟩ := hsplit
        exact halone before other after hsplit
    · cases before with
      | nil =>
        rw [List.nil_append, List.cons.injEq] at hsplit
        obtain ⟨rfl, hsplit⟩ := hsplit
        rw [installs_nil] at hmodel
        obtain ⟨hsettled, hsha⟩ := Call.settled hcache hcareful.1 hmodel
        have hlater := hsettled.run hcache' hcareful.2 between after hsplit
        rw [List.nil_append, installs_cons]
        exact hlater.trans hsha
      | cons first before =>
        rw [List.cons_append, List.cons.injEq] at hsplit
        obtain ⟨rfl, hsplit⟩ := hsplit
        rw [installs_cons] at hmodel
        rw [List.cons_append, installs_cons]
        exact hdigest before other between after hsplit model hmodel

/-! ## A second model of the same file name -/

/-- In place of a checksum, the bytes themselves. -/
def rawSum (bytes : List UInt8) : String := String.ofList (bytes.map fun b => Char.ofNat b.toNat)

/-- An empty cache, and two directories of a safetensors model each, of one file name. -/
def twoModels : FsM Unit := do
  ["c", "x", "y"].forM fun dir => createDir [osString dir] ""
  ["x", "y"].forM fun dir => do
    sidecars.forM fun sidecar => createFile [sidecar, osString dir] [123, 125] ""
    createFile [osString "m.safetensors", osString dir] (osString dir) ""
  createFile [osString "m.gguf", osString "x"] [103] ""

def shelf : Tree := (twoModels.run.run .empty).2

def cache : Path := [osString "c"]

def offline : Network where
  validateDirectDownloadUrl _ := .error "offline"
  validateDirectDownloadResolvesPublic _ := .error "offline"
  send _ _ := .error "offline"

def copyOf (file dir : String) : Call :=
  ⟨offline, ⟨dir, .localPath [osString file, osString dir], true, none, "chat", none, 1⟩⟩

/-- Models of different file names are installed side by side. -/
theorem copies_kept : Kept rawSum cache shelf [copyOf "m.safetensors" "x", copyOf "m.gguf" "x"] := by
  have hcache : shelf.lookup cache = some .dir := by decide +kernel
  have hfirst : Careful cache shelf (copyOf "m.safetensors" "x").request := by
    change CarefulCopy cache shelf [osString "m.safetensors", osString "x"]
    intro _
    rw [if_pos (by decide +kernel)]
    decide +kernel
  have hsecond : Careful cache ((copyOf "m.safetensors" "x").run rawSum cache shelf).2 (copyOf "m.gguf" "x").request := by
    change CarefulCopy cache _ [osString "m.gguf", osString "x"]
    intro _
    rw [if_neg (by decide +kernel)]
    have hfree : ((copyOf "m.safetensors" "x").run rawSum cache shelf).2.lookup
        (uniqueDestination ((copyOf "m.safetensors" "x").run rawSum cache shelf).2 cache [osString "m.gguf"]) = none := by decide +kernel
    rw [hfree]
    exact fun _ => nofun
  exact installs_kept rawSum hcache ⟨hfirst, hsecond, trivial⟩

/-- The copy of the second model goes over the first one's. -/
theorem second_copy_overwrites : shelf.lookup cache = some .dir ∧
    ¬ Kept rawSum cache shelf [copyOf "m.safetensors" "x", copyOf "m.safetensors" "y"] := by
  refine ⟨by decide +kernel, fun h => ?_⟩
  have hkept := (h.alone [copyOf "m.safetensors" "x"] (copyOf "m.safetensors" "y") [] rfl).kept
    [osString "m.safetensors", osString "m"] (osString "x") (List.cons_ne_nil _ _) nofun (by decide +kernel)
  have hover : (installs rawSum cache shelf ([copyOf "m.safetensors" "x"] ++ [copyOf "m.safetensors" "y"])).lookup
      ([osString "m.safetensors", osString "m"] ++ cache) = some (.file (osString "y")) := by decide +kernel
  rw [hover] at hkept
  exact absurd hkept (by decide +kernel)

end Llmctl.Install
