import Llmctl.Fs.Tree

/-!
# Programs on a tree of files

A program reads and changes entries and may fail, and what it has changed by then stays. What
it can change is said by the paths at which it sets entries: the rest of the tree, all
directories included, is as it was.
-/

namespace Fs

/-! ## Changes at some paths -/

section
variable (at_ : Path → Prop)

/-- The tree has come of the other one by entries set and removed at these paths, none of them
a link. -/
inductive Changes : Tree → Tree → Prop where
  | refl (tree : Tree) : Changes tree tree
  | set {tree mid : Tree} {name : OsString} {dir : Path} {entry : Entry} (h : Changes tree mid) (hat : at_ (name :: dir))
      (hentry : ∀ target, entry ≠ .link target) (hdir : mid.lookup dir = some .dir) (hleaf : mid.lookup (name :: dir) ≠ some .dir) :
      Changes tree (mid.set name dir entry hdir hleaf)
  | unset {tree mid : Tree} {name : OsString} {dir : Path} (h : Changes tree mid) (hat : at_ (name :: dir))
      (hleaf : mid.lookup (name :: dir) ≠ some .dir) : Changes tree (mid.unset name dir hleaf)

end

namespace Changes

variable {at_ at' : Path → Prop} {tree tree' tree'' : Tree} {path : Path}

theorem trans (h : Changes at_ tree tree') (h' : Changes at_ tree' tree'') : Changes at_ tree tree'' := by
  induction h' with
  | refl => exact h
  | set _ hat hentry hdir hleaf ih => exact ih.set hat hentry hdir hleaf
  | unset _ hat hleaf ih => exact ih.unset hat hleaf

theorem mono (h : Changes at_ tree tree') (hsub : ∀ path, at_ path → at' path) : Changes at' tree tree' := by
  induction h with
  | refl => exact .refl tree
  | set _ hat hentry hdir hleaf ih => exact ih.set (hsub _ hat) hentry hdir hleaf
  | unset _ hat hleaf ih => exact ih.unset (hsub _ hat) hleaf

/-- Directories stay. -/
theorem dir (h : Changes at_ tree tree') (hdir : tree.lookup path = some .dir) : tree'.lookup path = some .dir := by
  induction h with
  | refl => exact hdir
  | set _ _ _ _ hleaf ih =>
    rw [Tree.lookup_set_of_ne, ih]
    rintro rfl
    exact hleaf ih
  | unset _ _ hleaf ih =>
    rw [Tree.lookup_unset_of_ne, ih]
    rintro rfl
    exact hleaf ih

/-- No link comes up. -/
theorem no_link (h : Changes at_ tree tree') (hlink : ∀ target, tree.lookup path ≠ some (.link target)) :
    ∀ target, tree'.lookup path ≠ some (.link target) := by
  induction h with
  | refl => exact hlink
  | @set mid name dir entry _ _ hentry _ _ ih =>
    intro target
    by_cases hpath : path = name :: dir
    · subst hpath
      rw [Tree.lookup_set]
      exact fun he => hentry target (Option.some.inj he)
    · rw [Tree.lookup_set_of_ne hpath]
      exact ih target
  | @unset mid name dir _ _ _ ih =>
    intro target
    by_cases hpath : path = name :: dir
    · subst hpath
      simp [Tree.lookup_unset]
    · rw [Tree.lookup_unset_of_ne hpath]
      exact ih target

/-- Elsewhere nothing changes. -/
theorem lookup (h : Changes at_ tree tree') (hpath : ¬ at_ path) : tree'.lookup path = tree.lookup path := by
  induction h with
  | refl => rfl
  | set _ hat _ _ _ ih =>
    rw [Tree.lookup_set_of_ne, ih]
    rintro rfl
    exact hpath hat
  | unset _ hat _ ih =>
    rw [Tree.lookup_unset_of_ne, ih]
    rintro rfl
    exact hpath hat

/-- A directory in which nothing is set reads the same. -/
theorem names (h : Changes at_ tree tree') (hpath : ∀ name, ¬ at_ (name :: path)) : tree'.names path = tree.names path := by
  induction h with
  | refl => rfl
  | set _ hat _ _ _ ih =>
    rw [Tree.names_set_of_ne, ih]
    rintro rfl
    exact hpath _ hat
  | unset _ hat _ ih =>
    rw [Tree.names_unset_of_ne, ih]
    rintro rfl
    exact hpath _ hat

end Changes

/-! ## Programs -/

abbrev FsM := ExceptT String (StateM Tree)

section
variable {α β : Type} {at_ at' : Path → Prop}

/-- The program, run on this tree, changes these paths only, and what it returns meets the
postcondition. -/
def Does (at_ : Path → Prop) (program : FsM α) (tree : Tree) (post : α → Tree → Prop) : Prop :=
  Changes at_ tree (program.run.run tree).2 ∧ ∀ a, (program.run.run tree).1 = .ok a → post a (program.run.run tree).2

variable {program : FsM α} {tree : Tree} {post post' : α → Tree → Prop}

theorem Does.mono (h : Does at_ program tree post) (hsub : ∀ path, at_ path → at' path)
    (hpost : ∀ a tree', Changes at_ tree tree' → post a tree' → post' a tree') : Does at' program tree post' :=
  ⟨h.1.mono hsub, fun a ha => hpost a _ h.1 (h.2 a ha)⟩

theorem does_pure {a : α} (h : post a tree) : Does at_ (pure a : FsM α) tree post :=
  ⟨.refl tree, fun _ ha => by cases ha; exact h⟩

theorem does_throw (e : String) : Does at_ (throw e : FsM α) tree post := ⟨.refl tree, fun _ ha => by cases ha⟩

theorem Does.bind {f : α → FsM β} {post' : β → Tree → Prop} (h : Does at_ program tree post)
    (hf : ∀ a tree', Changes at_ tree tree' → post a tree' → Does at_ (f a) tree' post') : Does at_ (program >>= f) tree post' := by
  obtain ⟨hchanges, hpost⟩ := h
  have hrun : (program >>= f).run.run tree =
      match program.run.run tree with
      | (.ok a, tree') => (f a).run.run tree'
      | (.error e, tree') => (.error e, tree') := by
    change (ExceptT.bindCont f (program.run.run tree).1).run (program.run.run tree).2 = _
    rcases program.run.run tree with ⟨⟨_⟩ | ⟨_⟩, _⟩ <;> rfl
  unfold Does
  rw [hrun]
  rcases hresult : program.run.run tree with ⟨⟨e⟩ | ⟨a⟩, tree'⟩
  · rw [hresult] at hchanges
    exact ⟨hchanges, fun _ ha => by cases ha⟩
  · rw [hresult] at hchanges hpost
    obtain ⟨hnext, hdone⟩ := hf a tree' hchanges (hpost a rfl)
    exact ⟨hchanges.trans hnext, hdone⟩

theorem does_get {f : Tree → FsM β} {post : β → Tree → Prop} (h : Does at_ (f tree) tree post) : Does at_ (get >>= f) tree post := h

/-- Whether the program fails does not matter. -/
def attempt (program : FsM Unit) : FsM Unit := ExceptT.mk do
  let _ ← program.run
  pure (.ok ())

theorem does_attempt {program : FsM Unit} {post : Unit → Tree → Prop} (h : Does at_ program tree post) :
    Does at_ (attempt program) tree fun _ _ => True :=
  ⟨h.1, fun _ _ => trivial⟩

end

/-! ## Operations -/

def liftResult {α : Type} (result : Except String α) : FsM α := ExceptT.mk (pure result)

def setEntry (name : OsString) (dir : Path) (entry : Entry) (error : String) : FsM Unit := do
  let tree ← get
  if h : tree.lookup dir = some .dir ∧ tree.lookup (name :: dir) ≠ some .dir then set (tree.set name dir entry h.1 h.2)
  else throw error

def unsetEntry (name : OsString) (dir : Path) (error : String) : FsM Unit := do
  let tree ← get
  if h : tree.lookup (name :: dir) ≠ none ∧ tree.lookup (name :: dir) ≠ some .dir then set (tree.unset name dir h.2)
  else throw error

/-- A file is opened, made empty or made new, and written. -/
def createFile (path : Path) (bytes : List UInt8) (error : String) : FsM Unit := do
  match (← get).resolve path with
  | some (name :: dir) => setEntry name dir (.file bytes) error
  | _ => throw error

def appendFile (path : Path) (bytes : List UInt8) (error : String) : FsM Unit := do
  let tree ← get
  match tree.resolve path with
  | some (name :: dir) =>
    match tree.lookup (name :: dir) with
    | some (.file old) => setEntry name dir (.file (old ++ bytes)) error
    | _ => throw error
  | _ => throw error

def readFile (path : Path) (error : String) : FsM (List UInt8) := do
  match (← get).metadata path with
  | some (.file bytes) => pure bytes
  | _ => throw error

def copyFile (source target : Path) (error : String) : FsM Unit := do
  createFile target (← readFile source error) error

def createDir (path : Path) (error : String) : FsM Unit := do
  let tree ← get
  match path with
  | [] => throw error
  | name :: dir =>
    match tree.resolve dir with
    | some dir => if tree.lookup (name :: dir) = none then setEntry name dir .dir error else throw error
    | none => throw error

def createDirAll (error : String) : Path → FsM Unit
  | [] => pure ()
  | name :: dir => do
    if (← get).isDir (name :: dir) then pure ()
    else
      createDirAll error dir
      createDir (name :: dir) error

/-- The last name of the path is not followed. -/
def removeFile (path : Path) (error : String) : FsM Unit := do
  match path with
  | [] => throw error
  | name :: dir =>
    match (← get).resolve dir with
    | some dir => unsetEntry name dir error
    | none => throw error

/-- A file that is given another name, the last names of both paths not followed. -/
def rename (source target : Path) (error : String) : FsM Unit := do
  let tree ← get
  match source, target with
  | name :: dir, name' :: dir' =>
    match tree.resolve dir, tree.resolve dir' with
    | some dir, some dir' =>
      match tree.lookup (name :: dir) with
      | some entry =>
        if name :: dir = name' :: dir' then pure ()
        else
          setEntry name' dir' entry error
          unsetEntry name dir error
      | none => throw error
    | _, _ => throw error
  | _, _ => throw error

section
variable {at_ : Path → Prop} {tree : Tree} {name : OsString} {dir : Path} {error : String}

theorem does_liftResult {α : Type} (result : Except String α) :
    Does at_ (liftResult result) tree fun a tree' => result = .ok a ∧ tree' = tree :=
  ⟨.refl tree, fun _ h => ⟨h, rfl⟩⟩

theorem does_setEntry {entry : Entry} (hat : tree.lookup (name :: dir) ≠ some .dir → at_ (name :: dir))
    (hentry : ∀ target, entry ≠ .link target) :
    Does at_ (setEntry name dir entry error) tree fun _ tree' =>
      tree.lookup (name :: dir) ≠ some .dir ∧ tree'.lookup (name :: dir) = some entry := by
  refine does_get ?_
  split
  · rename_i h
    exact ⟨(Changes.refl tree).set (hat h.2) hentry h.1 h.2, fun _ _ => ⟨h.2, Function.update_self _ _ _⟩⟩
  · exact does_throw error

theorem does_unsetEntry (hat : tree.lookup (name :: dir) ≠ some .dir → at_ (name :: dir)) :
    Does at_ (unsetEntry name dir error) tree fun _ tree' => tree'.lookup (name :: dir) = none := by
  refine does_get ?_
  split
  · rename_i h
    exact ⟨(Changes.refl tree).unset (hat h.2) h.2, fun _ _ => Function.update_self _ _ _⟩
  · exact does_throw error

section
variable (hdir : tree.lookup dir = some .dir) (hlink : ∀ target, tree.lookup (name :: dir) ≠ some (.link target))
include hdir hlink

theorem does_createFile {bytes : List UInt8} (hat : tree.lookup (name :: dir) ≠ some .dir → at_ (name :: dir)) :
    Does at_ (createFile (name :: dir) bytes error) tree fun _ tree' => tree'.lookup (name :: dir) = some (.file bytes) := by
  refine does_get ?_
  rw [Tree.resolve_entry hdir hlink]
  exact (does_setEntry hat fun _ h => Entry.noConfusion h).mono (fun _ h => h) fun _ _ _ h => h.2

theorem does_appendFile {bytes : List UInt8} (hat : tree.lookup (name :: dir) ≠ some .dir → at_ (name :: dir)) :
    Does at_ (appendFile (name :: dir) bytes error) tree fun _ _ => True := by
  refine does_get ?_
  rw [Tree.resolve_entry hdir hlink]
  dsimp only
  split
  · exact (does_setEntry hat fun _ h => Entry.noConfusion h).mono (fun _ h => h) fun _ _ _ _ => trivial
  · exact does_throw error

theorem does_copyFile {source : Path} (hat : tree.lookup (name :: dir) ≠ some .dir → at_ (name :: dir)) :
    Does at_ (copyFile source (name :: dir) error) tree fun _ _ => True := by
  have hread : Does at_ (readFile source error) tree fun _ tree' => tree' = tree := by
    refine does_get ?_
    split
    · exact does_pure rfl
    · exact does_throw error
  refine hread.bind fun bytes tree' _ he => ?_
  subst he
  exact (does_createFile hdir hlink hat).mono (fun _ h => h) fun _ _ _ _ => trivial

end

section
variable (hdir : tree.lookup dir = some .dir)
include hdir

theorem does_createDir (hat : tree.lookup (name :: dir) = none → at_ (name :: dir)) :
    Does at_ (createDir (name :: dir) error) tree fun _ tree' =>
      tree.lookup (name :: dir) = none ∧ tree'.lookup (name :: dir) = some .dir := by
  refine does_get ?_
  dsimp only
  rw [Tree.resolve_dir hdir]
  dsimp only
  split
  · rename_i hnew
    refine (does_setEntry (fun _ => hat hnew) fun _ h => Entry.noConfusion h).mono (fun _ h => h) fun _ _ _ h => ⟨hnew, h.2⟩
  · exact does_throw error

theorem isDir_dir : tree.isDir dir = true := by
  unfold Tree.isDir Tree.metadata
  rw [Tree.resolve_dir hdir, Option.bind_some, hdir]
  rfl

theorem does_createDirAll_dir : Does at_ (createDirAll error dir) tree fun _ tree' => tree' = tree := by
  cases dir with
  | nil => exact does_pure rfl
  | cons name dir =>
    refine does_get ?_
    rw [if_pos (isDir_dir hdir)]
    exact does_pure rfl

/-- A directory of this path is there in the end, and if it was not, nothing was. -/
theorem does_createDirAll (hlink : tree.isDir (name :: dir) = true → ∀ target, tree.lookup (name :: dir) ≠ some (.link target))
    (hat : tree.lookup (name :: dir) = none → at_ (name :: dir)) :
    Does at_ (createDirAll error (name :: dir)) tree fun _ tree' =>
      tree'.lookup (name :: dir) = some .dir ∧ (tree.isDir (name :: dir) = false → tree.lookup (name :: dir) = none) := by
  refine does_get ?_
  split
  · rename_i hisDir
    refine does_pure ⟨?_, fun h => absurd hisDir (by rw [h]; exact Bool.false_ne_true)⟩
    have hmeta := hisDir
    unfold Tree.isDir Tree.metadata at hmeta
    rw [Tree.resolve_entry hdir (hlink hisDir), Option.bind_some, beq_iff_eq] at hmeta
    exact hmeta
  · refine (does_createDirAll_dir hdir).bind fun _ tree' _ he => ?_
    subst he
    exact (does_createDir hdir hat).mono (fun _ h => h) fun _ _ _ h => ⟨h.2, fun _ => h.1⟩

theorem does_removeFile (hat : tree.lookup (name :: dir) ≠ some .dir → at_ (name :: dir)) :
    Does at_ (removeFile (name :: dir) error) tree fun _ _ => True := by
  refine does_get ?_
  rw [Tree.resolve_dir hdir]
  exact (does_unsetEntry hat).mono (fun _ h => h) fun _ _ _ _ => trivial

theorem does_rename {name' : OsString} (hlink : ∀ target, tree.lookup (name :: dir) ≠ some (.link target))
    (hat : tree.lookup (name :: dir) ≠ some .dir → at_ (name :: dir))
    (hat' : tree.lookup (name' :: dir) ≠ some .dir → at_ (name' :: dir)) :
    Does at_ (rename (name :: dir) (name' :: dir) error) tree fun _ _ => True := by
  refine does_get ?_
  dsimp only
  rw [Tree.resolve_dir hdir]
  dsimp only
  split
  · rename_i entry hentry
    split
    · exact does_pure trivial
    · refine (does_setEntry hat' fun target he => hlink target (he ▸ hentry)).bind fun _ tree' hchanges _ => ?_
      refine (does_unsetEntry fun hleaf => hat fun hold => hleaf (hchanges.dir hold)).mono (fun _ h => h) fun _ _ _ _ => trivial
  · exact does_throw error

end

/-- A loop whose rounds change these paths only. -/
theorem does_forM {α : Type} {f : α → FsM PUnit} {xs : List α} (h : ∀ a ∈ xs, ∀ tree', Changes at_ tree tree' →
    Does at_ (f a) tree' fun _ _ => True) : Does at_ (xs.forM f) tree fun _ _ => True := by
  induction xs generalizing tree with
  | nil => exact does_pure trivial
  | cons a xs ih =>
    change Does at_ (f a >>= fun _ => xs.forM f) tree _
    refine (h a List.mem_cons_self tree (.refl tree)).bind fun _ tree' hchanges _ => ih fun b hb tree'' hchanges' => ?_
    exact h b (List.mem_cons_of_mem _ hb) tree'' (hchanges.trans hchanges')

end

end Fs
