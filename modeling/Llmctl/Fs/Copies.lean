import Llmctl.Fs.Runs

/-!
# Below one path

What a program that changes nothing but below one path leaves as it was: all that was there
before, if that path is new. A path still leads where it did.
-/

namespace Fs

/-- Nothing changes but at `top` and below it. -/
def KeptBut (top : Path) (tree tree' : Tree) : Prop := ∀ path, ¬ top <:+ path → tree'.lookup path = tree.lookup path

variable {tree tree' tree'' mid : Tree} {top path real source dir : Path} {name : OsString} {entry : Entry}

namespace Tree

theorem lookup_under (h : tree.lookup top = none) (hunder : top <:+ path) : tree.lookup path = none := by
  obtain ⟨rest, rfl⟩ := hunder
  exact lookup_below h rest

/-- Only a directory has something below it. -/
theorem lookup_below_leaf (h : tree.lookup dir ≠ some .dir) {rest : Path} (hrest : rest ≠ []) : tree.lookup (rest ++ dir) = none := by
  by_contra hsome
  exact h (lookup_above hrest hsome)

/-- An entry of a directory that is no link is found under the directory's path. -/
theorem resolve_child (hreal : tree.resolve path = some real) (hdir : tree.lookup real = some .dir)
    (hlink : ∀ target, tree.lookup (name :: real) ≠ some (.link target)) : tree.resolve (name :: path) = some (name :: real) := by
  have hlast (follow : List OsString → Option Path) : walk follow tree.lookup real [name] = some (name :: real) := by
    rw [walk]
    split
    · rfl
    · rename_i target hentry
      exact absurd hentry (hlink target)
    · exact if_pos rfl
    · exact if_pos rfl
  have hwalk {follow : List OsString → Option Path}
      (hfollow : ∀ names, follow names = some real → follow (names ++ [name]) = some (name :: real)) (d : Path) (names : List OsString)
      (h : walk follow tree.lookup d names = some real) : walk follow tree.lookup d (names ++ [name]) = some (name :: real) := by
    induction names generalizing d with
    | nil =>
      cases h
      exact hlast follow
    | cons n names ih =>
      rw [List.cons_append, walk]
      rw [walk] at h
      cases hentry : tree.lookup (n :: d) with
      | none =>
        rw [hentry] at h
        dsimp only at h
        split at h
        · cases h
          rw [hentry] at hdir
          cases hdir
        · cases h
      | some entry =>
        rw [hentry] at h
        cases entry with
        | dir => exact ih _ h
        | link target =>
          dsimp only at h ⊢
          rw [← List.append_assoc]
          exact hfollow _ h
        | file bytes =>
          dsimp only at h
          split at h
          · cases h
            rw [hentry] at hdir
            cases hdir
          · cases h
  have hwalkLinks (links : Nat) : ∀ names, walkLinks tree.lookup links names = some real →
      walkLinks tree.lookup links (names ++ [name]) = some (name :: real) := by
    induction links with
    | zero => exact fun names => hwalk (fun _ h => absurd h (Option.some_ne_none _).symm) [] names
    | succ links ih => exact fun names => hwalk ih [] names
  have hchild := hwalkLinks maxLinks path.reverse hreal
  rwa [← List.reverse_cons] at hchild

end Tree

namespace KeptBut

theorem refl (top : Path) (tree : Tree) : KeptBut top tree tree := fun _ _ => rfl

theorem trans (h : KeptBut top tree mid) (h' : KeptBut top mid tree') : KeptBut top tree tree' :=
  fun path hpath => (h' path hpath).trans (h path hpath)

theorem mono {top' : Path} (h : KeptBut top' tree tree') (hunder : top <:+ top') : KeptBut top tree tree' :=
  fun path hpath => h path fun hbelow => hpath (hunder.trans hbelow)

variable (h : KeptBut top tree tree') (htop : tree.lookup top = none)
include h htop

theorem lookup (hentry : tree.lookup path = some entry) : tree'.lookup path = some entry := by
  rw [h path, hentry]
  intro hunder
  rw [Tree.lookup_under htop hunder] at hentry
  cases hentry

theorem resolve (hreal : tree.resolve path = some real) (hentry : tree.lookup real = some entry) : tree'.resolve path = some real := by
  refine Tree.resolve_of_kept (fun _ hdir => h.lookup htop hdir) (fun _ _ hlink => h.lookup htop hlink) ?_ ?_ hreal
  · rw [h.lookup htop hentry, hentry]
  · rw [hentry]
    exact Option.some_ne_none _

theorem metadata (hentry : tree.metadata path = some entry) : tree'.metadata path = some entry := by
  obtain ⟨real, hreal, hentry⟩ := Option.bind_eq_some_iff.mp hentry
  rw [Tree.metadata, h.resolve htop hreal hentry, Option.bind_some, h.lookup htop hentry]

end KeptBut

/-- A directory that is not above the new path has nothing below it that is below that path. -/
theorem not_under (htop : tree.lookup top = none) (hreal : tree.lookup real ≠ none) (hout : ¬ real <:+ top) (rest : Path) :
    ¬ top <:+ rest ++ real := by
  intro hunder
  rcases List.suffix_or_suffix_of_suffix hunder (List.suffix_append rest real) with h | h
  · exact hreal (Tree.lookup_under htop h)
  · exact hout h

theorem keptBut_set {hdir : tree.lookup dir = some .dir} {hleaf : tree.lookup (name :: dir) ≠ some .dir} :
    KeptBut (name :: dir) tree (tree.set name dir entry hdir hleaf) := by
  intro path hpath
  exact Tree.lookup_set_of_ne fun h => hpath (h ▸ List.suffix_refl _)

/-! ## New entries -/

theorem ne_dir_of_new (hnew : tree.lookup path = none) : tree.lookup path ≠ some .dir := by
  simp [hnew]

theorem isDir_of_resolve (hpath : tree.resolve path = some dir) (hdir : tree.lookup dir = some .dir) : tree.isDir path = true := by
  rw [Tree.isDir, Tree.metadata, hpath, Option.bind_some, hdir]
  rfl

theorem runs_createDirAll_of_isDir {error : String} (h : tree.isDir path = true) : Runs (createDirAll error path) tree (.ok ()) tree := by
  cases path with
  | nil => exact runs_pure ..
  | cons name path =>
    refine runs_get ?_
    rw [if_pos h]
    exact runs_pure ..

section
variable {error : String} (hpath : tree.resolve path = some dir) (hdir : tree.lookup dir = some .dir)
  (hnew : tree.lookup (name :: dir) = none)
include hpath hdir hnew

theorem resolve_new : tree.resolve (name :: path) = some (name :: dir) := by
  refine Tree.resolve_child hpath hdir ?_
  simp [hnew]

theorem metadata_new : tree.metadata (name :: path) = none := by
  rw [Tree.metadata, resolve_new hpath hdir hnew, Option.bind_some, hnew]

theorem runs_copyFile_new {bytes : List UInt8} (hsource : tree.metadata source = some (.file bytes)) :
    Runs (copyFile source (name :: path) error) tree (.ok ()) (tree.set name dir (.file bytes) hdir (ne_dir_of_new hnew)) := by
  have hread : Runs (readFile source error) tree (.ok bytes) tree := by
    refine runs_get ?_
    rw [hsource]
    exact runs_pure ..
  refine hread.bind (runs_get ?_)
  rw [resolve_new hpath hdir hnew]
  exact runs_setEntry _ hdir (ne_dir_of_new hnew)

theorem runs_createDirAll_new (error : String) :
    Runs (createDirAll error (name :: path)) tree (.ok ()) (tree.set name dir .dir hdir (ne_dir_of_new hnew)) := by
  have hnot : tree.isDir (name :: path) = false := by
    rw [Tree.isDir, metadata_new hpath hdir hnew]
    rfl
  refine runs_get ?_
  rw [if_neg (by rw [hnot]; exact Bool.false_ne_true)]
  refine (runs_createDirAll_of_isDir (isDir_of_resolve hpath hdir)).bind (runs_get ?_)
  dsimp only
  rw [hpath]
  dsimp only
  rw [if_pos hnew]
  exact runs_setEntry _ hdir (ne_dir_of_new hnew)

end

end Fs
