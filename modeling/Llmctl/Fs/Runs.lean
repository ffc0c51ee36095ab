import Llmctl.Fs.Changes

/-!
# Runs of a program

`Runs` says what a program returns on one tree and which tree it leaves. Here an operation is
known to succeed, or to fail and to change nothing.
-/

namespace Fs

section
variable {α β : Type}

/-- The program, run on the first tree, has this result and leaves the second tree. -/
def Runs (program : FsM α) (tree : Tree) (result : Except String α) (tree' : Tree) : Prop :=
  program.run.run tree = (result, tree')

variable {program : FsM α} {f : α → FsM β} {tree mid tree' : Tree}

theorem Runs.bind {a : α} {result : Except String β} (h : Runs program tree (.ok a) mid) (hf : Runs (f a) mid result tree') :
    Runs (program >>= f) tree result tree' := by
  unfold Runs at h hf ⊢
  change (ExceptT.bindCont f (program.run.run tree).1).run (program.run.run tree).2 = _
  rw [h]
  exact hf

theorem Runs.bind_error {e : String} (h : Runs program tree (.error e) tree') : Runs (program >>= f) tree (.error e) tree' := by
  unfold Runs at h ⊢
  change (ExceptT.bindCont f (program.run.run tree).1).run (program.run.run tree).2 = _
  rw [h]
  rfl

theorem runs_pure (a : α) (tree : Tree) : Runs (pure a : FsM α) tree (.ok a) tree := rfl

theorem runs_throw (e : String) (tree : Tree) : Runs (throw e : FsM α) tree (.error e) tree := rfl

theorem runs_get {f : Tree → FsM β} {result : Except String β} (h : Runs (f tree) tree result tree') :
    Runs (get >>= f) tree result tree' := h

theorem runs_liftResult (result : Except String α) (tree : Tree) : Runs (liftResult result) tree result tree := rfl

theorem runs_liftResult_ok {result : Except String α} {a : α} (h : result = .ok a) : Runs (liftResult result) tree (.ok a) tree := by
  subst h
  exact runs_liftResult _ tree

theorem runs_liftResult_error {result : Except String α} {e : String} (h : result = .error e) :
    Runs (liftResult result) tree (.error e) tree := by
  subst h
  exact runs_liftResult _ tree

theorem runs_attempt {program : FsM Unit} {result : Except String Unit} (h : Runs program tree result tree') :
    Runs (attempt program) tree (.ok ()) tree' := by
  unfold Runs at h
  change (Except.ok (), (program.run.run tree).2) = _
  rw [h]

end

namespace Tree

variable {tree : Tree} {name : OsString} {dir : Path}

theorem eq_of_lookup_names {tree tree' : Tree} (h : tree.lookup = tree'.lookup) (h' : tree.names = tree'.names) : tree = tree' := by
  cases tree
  cases tree'
  cases h
  cases h'
  rfl

/-- An entry that is set and then removed might as well have been removed at once. -/
theorem unset_set {entry : Entry} (hentry : tree.lookup (name :: dir) ≠ none) (hdir : tree.lookup dir = some .dir)
    (hleaf : tree.lookup (name :: dir) ≠ some .dir) (hleaf' : (tree.set name dir entry hdir hleaf).lookup (name :: dir) ≠ some .dir) :
    (tree.set name dir entry hdir hleaf).unset name dir hleaf' = tree.unset name dir hleaf := by
  refine eq_of_lookup_names (Function.update_idem ..) ?_
  have hnames : (tree.set name dir entry hdir hleaf).names dir = tree.names dir := by
    refine (Function.update_self ..).trans ?_
    rw [if_neg hentry]
  have hunset : ((tree.set name dir entry hdir hleaf).unset name dir hleaf').names =
      Function.update (Function.update tree.names dir _) dir (((tree.set name dir entry hdir hleaf).names dir).erase name) := rfl
  rw [hunset, hnames, Function.update_idem]
  rfl

/-- Nothing comes up when an entry is removed. -/
theorem isPresent_unset {path : Path} {hleaf : tree.lookup (name :: dir) ≠ some .dir}
    (h : (tree.unset name dir hleaf).isPresent path = true) : tree.isPresent path = true := by
  have hkept {p : Path} {entry : Entry} (hp : (tree.unset name dir hleaf).lookup p = some entry) : tree.lookup p = some entry := by
    by_cases hname : p = name :: dir
    · rw [hname, lookup_unset] at hp
      cases hp
    · rwa [lookup_unset_of_ne hname] at hp
  obtain ⟨entry, hentry⟩ := Option.isSome_iff_exists.mp h
  obtain ⟨real, hreal, hentry⟩ := Option.bind_eq_some_iff.mp hentry
  have hsome : (tree.unset name dir hleaf).lookup real ≠ none := by
    rw [hentry]
    exact Option.some_ne_none _
  have hresolve := resolve_of_kept (fun _ hdir => hkept hdir) (fun _ _ hlink => hkept hlink) ((hkept hentry).trans hentry.symm)
    hsome hreal
  exact Option.isSome_iff_exists.mpr ⟨entry, Option.bind_eq_some_iff.mpr ⟨real, hresolve, hkept hentry⟩⟩

end Tree

section
variable {tree : Tree} {name : OsString} {dir : Path} {error : String}

theorem runs_setEntry (entry : Entry) (hdir : tree.lookup dir = some .dir) (hleaf : tree.lookup (name :: dir) ≠ some .dir) :
    Runs (setEntry name dir entry error) tree (.ok ()) (tree.set name dir entry hdir hleaf) := by
  refine runs_get ?_
  rw [dif_pos ⟨hdir, hleaf⟩]
  rfl

theorem runs_unsetEntry (hsome : tree.lookup (name :: dir) ≠ none) (hleaf : tree.lookup (name :: dir) ≠ some .dir) :
    Runs (unsetEntry name dir error) tree (.ok ()) (tree.unset name dir hleaf) := by
  refine runs_get ?_
  rw [dif_pos ⟨hsome, hleaf⟩]
  rfl

section
variable (hdir : tree.lookup dir = some .dir)
include hdir

theorem runs_createFile (bytes : List UInt8) (hlink : ∀ target, tree.lookup (name :: dir) ≠ some (.link target))
    (hleaf : tree.lookup (name :: dir) ≠ some .dir) :
    Runs (createFile (name :: dir) bytes error) tree (.ok ()) (tree.set name dir (.file bytes) hdir hleaf) := by
  refine runs_get ?_
  rw [Tree.resolve_entry hdir hlink]
  exact runs_setEntry _ hdir hleaf

/-- No file is made where a directory is. -/
theorem runs_createFile_dir (bytes : List UInt8) (hentry : tree.lookup (name :: dir) = some .dir) :
    Runs (createFile (name :: dir) bytes error) tree (.error error) tree := by
  refine runs_get ?_
  rw [Tree.resolve_entry hdir (by simp [hentry])]
  refine runs_get ?_
  rw [dif_neg fun h => h.2 hentry]
  rfl

theorem runs_appendFile {old : List UInt8} (bytes : List UInt8) (hold : tree.lookup (name :: dir) = some (.file old))
    (hleaf : tree.lookup (name :: dir) ≠ some .dir) :
    Runs (appendFile (name :: dir) bytes error) tree (.ok ()) (tree.set name dir (.file (old ++ bytes)) hdir hleaf) := by
  refine runs_get ?_
  rw [Tree.resolve_entry hdir (by simp [hold])]
  dsimp only
  rw [hold]
  exact runs_setEntry _ hdir hleaf

theorem runs_removeFile (hsome : tree.lookup (name :: dir) ≠ none) (hleaf : tree.lookup (name :: dir) ≠ some .dir) :
    Runs (removeFile (name :: dir) error) tree (.ok ()) (tree.unset name dir hleaf) := by
  refine runs_get ?_
  rw [Tree.resolve_dir hdir]
  exact runs_unsetEntry hsome hleaf

/-- Nothing is removed where nothing or a directory is. -/
theorem runs_removeFile_none (h : tree.lookup (name :: dir) = none ∨ tree.lookup (name :: dir) = some .dir) :
    Runs (removeFile (name :: dir) error) tree (.error error) tree := by
  refine runs_get ?_
  rw [Tree.resolve_dir hdir]
  refine runs_get ?_
  rw [dif_neg fun hboth => h.elim hboth.1 hboth.2]
  rfl

/-- What is renamed is under its new name, and no link comes up elsewhere. -/
theorem runs_rename {name' : OsString} {entry : Entry} (hne : name ≠ name') (hentry : tree.lookup (name :: dir) = some entry)
    (hleaf : entry ≠ .dir) (hleaf' : tree.lookup (name' :: dir) ≠ some .dir) :
    ∃ tree', Runs (rename (name :: dir) (name' :: dir) error) tree (.ok ()) tree' ∧ tree'.lookup (name' :: dir) = some entry ∧
      ∀ path target, path ≠ name' :: dir → tree'.lookup path = some (.link target) → tree.lookup path = some (.link target) := by
  have hpath : name :: dir ≠ name' :: dir := fun h => hne (List.cons.inj h).1
  have hstays : (tree.set name' dir entry hdir hleaf').lookup (name :: dir) = some entry := by
    rw [Tree.lookup_set_of_ne hpath, hentry]
  have hkept : (tree.set name' dir entry hdir hleaf').lookup (name :: dir) ≠ some .dir := by
    rw [hstays]
    exact fun h => hleaf (Option.some.inj h)
  refine ⟨(tree.set name' dir entry hdir hleaf').unset name dir hkept, ?_, ?_, fun path target hother hlink => ?_⟩
  · refine runs_get ?_
    dsimp only
    rw [Tree.resolve_dir hdir]
    dsimp only
    rw [hentry]
    dsimp only
    rw [if_neg hpath]
    refine (runs_setEntry entry hdir hleaf').bind (runs_unsetEntry ?_ hkept)
    rw [hstays]
    exact Option.some_ne_none _
  · rw [Tree.lookup_unset_of_ne hpath.symm, Tree.lookup_set]
  · by_cases hsource : path = name :: dir
    · rw [hsource, Tree.lookup_unset] at hlink
      cases hlink
    · rwa [Tree.lookup_unset_of_ne hsource, Tree.lookup_set_of_ne hother] at hlink

theorem runs_createDirAll : Runs (createDirAll error dir) tree (.ok ()) tree := by
  cases dir with
  | nil => exact runs_pure ..
  | cons name dir =>
    refine runs_get ?_
    rw [if_pos (isDir_dir hdir)]
    exact runs_pure ..

end

end

end Fs
