import Mathlib.Data.List.Nodup
import Mathlib.Data.List.Basic
import Mathlib.Logic.Function.Basic

/-!
# A tree of files

The entries of a file system by their paths, and the names of each directory. What has entries
in it is a directory; links may lead anywhere. A file has one name.
-/

namespace Fs

abbrev OsString := List UInt8

/-- The names from a file up to the root. -/
abbrev Path := List OsString

inductive Entry where
  | file (bytes : List UInt8)
  | dir
  /-- The target is read from the root down. -/
  | link (target : List OsString)
  deriving DecidableEq, Repr

structure Tree where
  lookup : Path → Option Entry
  /-- The names in a directory, in the order in which it is read. -/
  names : Path → List OsString
  root : lookup [] = some .dir
  mem_names : ∀ name dir, name ∈ names dir ↔ lookup (name :: dir) ≠ none
  nodup : ∀ dir, (names dir).Nodup
  parent : ∀ name dir, lookup (name :: dir) ≠ none → lookup dir = some .dir

namespace Tree

def empty : Tree where
  lookup path := if path = [] then some .dir else none
  names _ := []
  root := rfl
  mem_names _ _ := iff_of_false List.not_mem_nil fun h => h rfl
  nodup _ := List.nodup_nil
  parent _ _ h := absurd rfl h

/-! ## Changing one entry -/

section
variable (tree : Tree) (name : OsString) (dir : Path)

def set (entry : Entry) (hdir : tree.lookup dir = some .dir) (hleaf : tree.lookup (name :: dir) ≠ some .dir) : Tree where
  lookup := Function.update tree.lookup (name :: dir) (some entry)
  names := Function.update tree.names dir (if tree.lookup (name :: dir) = none then name :: tree.names dir else tree.names dir)
  root := by rw [Function.update_of_ne (List.cons_ne_nil _ _).symm, tree.root]
  mem_names other d := by
    by_cases hd : d = dir
    · subst hd
      rw [Function.update_self]
      by_cases hother : other = name
      · subst hother
        rw [Function.update_self]
        refine iff_of_true ?_ (Option.some_ne_none _)
        split
        · exact List.mem_cons_self
        · rename_i hold
          exact (tree.mem_names other d).mpr hold
      · rw [Function.update_of_ne (fun h => hother (List.cons.inj h).1), ← tree.mem_names]
        split
        · rw [List.mem_cons, or_iff_right hother]
        · rfl
    · rw [Function.update_of_ne hd, Function.update_of_ne (fun h => hd (List.cons.inj h).2), tree.mem_names]
  nodup d := by
    by_cases hd : d = dir
    · subst hd
      rw [Function.update_self]
      split
      · rename_i hnew
        exact List.nodup_cons.mpr ⟨fun h => (tree.mem_names name d).mp h hnew, tree.nodup d⟩
      · exact tree.nodup d
    · rw [Function.update_of_ne hd]
      exact tree.nodup d
  parent other d h := by
    by_cases hd : d = name :: dir
    · -- nothing is below the entry
      subst hd
      rw [Function.update_of_ne (List.cons_ne_self _ _)] at h
      exact absurd (tree.parent other _ h) hleaf
    · rw [Function.update_of_ne hd]
      by_cases hp : other :: d = name :: dir
      · rw [(List.cons.inj hp).2, hdir]
      · rw [Function.update_of_ne hp] at h
        exact tree.parent other d h

def unset (hleaf : tree.lookup (name :: dir) ≠ some .dir) : Tree where
  lookup := Function.update tree.lookup (name :: dir) none
  names := Function.update tree.names dir ((tree.names dir).erase name)
  root := by rw [Function.update_of_ne (List.cons_ne_nil _ _).symm, tree.root]
  mem_names other d := by
    by_cases hd : d = dir
    · subst hd
      rw [Function.update_self, (tree.nodup d).mem_erase_iff]
      by_cases hother : other = name
      · subst hother
        rw [Function.update_self]
        exact iff_of_false (fun h => h.1 rfl) (fun h => h rfl)
      · rw [Function.update_of_ne (fun h => hother (List.cons.inj h).1), ← tree.mem_names, and_iff_right hother]
    · rw [Function.update_of_ne hd, Function.update_of_ne (fun h => hd (List.cons.inj h).2), tree.mem_names]
  nodup d := by
    by_cases hd : d = dir
    · subst hd
      rw [Function.update_self]
      exact (tree.nodup d).erase name
    · rw [Function.update_of_ne hd]
      exact tree.nodup d
  parent other d h := by
    by_cases hp : other :: d = name :: dir
    · rw [hp, Function.update_self] at h
      exact absurd rfl h
    · rw [Function.update_of_ne hp] at h
      by_cases hd : d = name :: dir
      · subst hd
        exact absurd (tree.parent other _ h) hleaf
      · rw [Function.update_of_ne hd]
        exact tree.parent other d h

end

section
variable {tree : Tree} {name : OsString} {dir path : Path} {entry : Entry} {hdir : tree.lookup dir = some .dir}
  {hleaf : tree.lookup (name :: dir) ≠ some .dir}

@[simp] theorem lookup_set : (tree.set name dir entry hdir hleaf).lookup (name :: dir) = some entry := Function.update_self _ _ _

theorem lookup_set_of_ne (h : path ≠ name :: dir) : (tree.set name dir entry hdir hleaf).lookup path = tree.lookup path :=
  Function.update_of_ne h _ _

theorem names_set_of_ne (h : path ≠ dir) : (tree.set name dir entry hdir hleaf).names path = tree.names path :=
  Function.update_of_ne h _ _

@[simp] theorem lookup_unset : (tree.unset name dir hleaf).lookup (name :: dir) = none := Function.update_self _ _ _

theorem lookup_unset_of_ne (h : path ≠ name :: dir) : (tree.unset name dir hleaf).lookup path = tree.lookup path :=
  Function.update_of_ne h _ _

theorem names_unset_of_ne (h : path ≠ dir) : (tree.unset name dir hleaf).names path = tree.names path :=
  Function.update_of_ne h _ _

end

/-! ## Following a path -/

/-- Where the names lead from a directory, the last of them perhaps to no entry. `follow` goes
on from the root, where a link has led to. -/
def walk (follow : List OsString → Option Path) (lookup : Path → Option Entry) : Path → List OsString → Option Path
  | dir, [] => some dir
  | dir, name :: rest =>
    match lookup (name :: dir) with
    | some .dir => walk follow lookup (name :: dir) rest
    | some (.link target) => follow (target ++ rest)
    | some (.file _) | none => if rest = [] then some (name :: dir) else none

/-- With so many links at most. -/
def walkLinks (lookup : Path → Option Entry) : Nat → List OsString → Option Path
  | 0 => walk (fun _ => none) lookup []
  | links + 1 => walk (walkLinks lookup links) lookup []

def maxLinks : Nat := 40

def resolve (tree : Tree) (path : Path) : Option Path := walkLinks tree.lookup maxLinks path.reverse

/-- The entry that a path leads to, links followed. -/
def metadata (tree : Tree) (path : Path) : Option Entry := (tree.resolve path).bind tree.lookup

def isFile (tree : Tree) (path : Path) : Bool :=
  match tree.metadata path with
  | some (.file _) => true
  | _ => false

def isDir (tree : Tree) (path : Path) : Bool := tree.metadata path == some .dir

def isPresent (tree : Tree) (path : Path) : Bool := (tree.metadata path).isSome

/-- The entries of a directory, links not followed. -/
def readDir (tree : Tree) (path : Path) : List (OsString × Entry) :=
  match tree.resolve path with
  | some dir => (tree.names dir).filterMap fun name => (tree.lookup (name :: dir)).map fun entry => (name, entry)
  | none => []

section
variable {tree : Tree} {dir : Path} {name : OsString}

theorem lookup_below (h : tree.lookup dir = none) (rest : Path) : tree.lookup (rest ++ dir) = none := by
  induction rest with
  | nil => exact h
  | cons name rest ih =>
    by_contra hsome
    rw [List.cons_append] at hsome
    rw [tree.parent name _ hsome] at ih
    cases ih

/-- What has something below it is a directory. -/
theorem lookup_above {rest : Path} (hrest : rest ≠ []) (h : tree.lookup (rest ++ dir) ≠ none) : tree.lookup dir = some .dir := by
  induction rest with
  | nil => exact absurd rfl hrest
  | cons name rest ih =>
    have hdir := tree.parent name (rest ++ dir) h
    cases rest with
    | nil => exact hdir
    | cons next rest => exact ih (List.cons_ne_nil _ _) (by rw [hdir]; exact Option.some_ne_none _)

/-- A directory is walked through without links. -/
theorem walk_dir (hdir : tree.lookup dir = some .dir) (follow : List OsString → Option Path) (rest : List OsString) :
    walk follow tree.lookup [] (dir.reverse ++ rest) = walk follow tree.lookup dir rest := by
  induction dir generalizing rest with
  | nil => rfl
  | cons name dir ih =>
    have hparent := tree.parent name dir (by rw [hdir]; exact Option.some_ne_none _)
    rw [List.reverse_cons, List.append_assoc, List.singleton_append, ih hparent, walk, hdir]

theorem resolve_dir (hdir : tree.lookup dir = some .dir) : tree.resolve dir = some dir := by
  have hwalk := walk_dir hdir (walkLinks tree.lookup 39) []
  rw [List.append_nil] at hwalk
  exact hwalk

/-- An entry of a directory that is no link is found under its path. -/
theorem resolve_entry (hdir : tree.lookup dir = some .dir) (hlink : ∀ target, tree.lookup (name :: dir) ≠ some (.link target)) :
    tree.resolve (name :: dir) = some (name :: dir) := by
  have hwalk := walk_dir hdir (walkLinks tree.lookup 39) [name]
  rw [← List.reverse_cons] at hwalk
  refine hwalk.trans ?_
  rw [walk]
  split
  · rfl
  · rename_i target hentry
    exact absurd hentry (hlink target)
  · rfl
  · rfl

theorem lookup_of_isPresent (hdir : tree.lookup dir = some .dir) (h : tree.isPresent (name :: dir) = true) :
    tree.lookup (name :: dir) ≠ none := by
  intro hnone
  unfold isPresent metadata at h
  rw [resolve_entry hdir (by simp [hnone]), Option.bind_some, hnone] at h
  cases h

theorem lookup_eq_none (hdir : tree.lookup dir = some .dir) (h : tree.isPresent (name :: dir) = false)
    (hlink : ∀ target, tree.lookup (name :: dir) ≠ some (.link target)) : tree.lookup (name :: dir) = none := by
  unfold isPresent metadata at h
  rw [resolve_entry hdir hlink, Option.bind_some] at h
  exact Option.isSome_eq_false_iff.mp h |> Option.isNone_iff_eq_none.mp

theorem isDir_of_isPresent {path : Path} (h : tree.isPresent path = false) : tree.isDir path = false := by
  unfold isPresent at h
  unfold isDir
  rw [Option.isNone_iff_eq_none.mp (Option.isSome_eq_false_iff.mp h)]
  rfl

/-- A path does not end at a link. -/
theorem resolve_not_link {path real : Path} (h : tree.resolve path = some real) : ∀ target, tree.lookup real ≠ some (.link target) := by
  have hwalk {follow : List OsString → Option Path}
      (hfollow : ∀ names real, follow names = some real → ∀ target, tree.lookup real ≠ some (.link target)) (dir : Path)
      (hdir : tree.lookup dir = some .dir) (names : List OsString) {real : Path} (h : walk follow tree.lookup dir names = some real) :
      ∀ target, tree.lookup real ≠ some (.link target) := by
    induction names generalizing dir with
    | nil =>
      cases h
      simp [hdir]
    | cons name names ih =>
      rw [walk] at h
      split at h
      · rename_i hentry
        exact ih _ hentry h
      · exact hfollow _ _ h
      all_goals
        rename_i hentry
        split at h
        · cases h
          simp [hentry]
        · cases h
  have hwalkLinks (links : Nat) : ∀ names real, walkLinks tree.lookup links names = some real →
      ∀ target, tree.lookup real ≠ some (.link target) := by
    induction links with
    | zero => exact fun names real => hwalk (fun _ _ h => absurd h (Option.some_ne_none _).symm) [] tree.root names
    | succ links ih => exact fun names real => hwalk ih [] tree.root names
  exact hwalkLinks maxLinks _ _ h

/-- A path leads where it did if directories and links stay, and where it led to. -/
theorem resolve_of_kept {tree' : Tree} {path real : Path} (hdirs : ∀ p, tree.lookup p = some .dir → tree'.lookup p = some .dir)
    (hlinks : ∀ p target, tree.lookup p = some (.link target) → tree'.lookup p = some (.link target))
    (hreal : tree'.lookup real = tree.lookup real) (hsome : tree.lookup real ≠ none) (h : tree.resolve path = some real) :
    tree'.resolve path = some real := by
  have hwalk {follow follow' : List OsString → Option Path} (hfollow : ∀ names, follow names = some real → follow' names = some real)
      (dir : Path) (names : List OsString) (h : walk follow tree.lookup dir names = some real) :
      walk follow' tree'.lookup dir names = some real := by
    induction names generalizing dir with
    | nil => exact h
    | cons name names ih =>
      rw [walk] at h ⊢
      cases hentry : tree.lookup (name :: dir) with
      | none =>
        rw [hentry] at h
        dsimp only at h
        split at h
        · cases h
          exact absurd hentry hsome
        · cases h
      | some entry =>
        rw [hentry] at h
        cases entry with
        | dir =>
          rw [hdirs _ hentry]
          exact ih _ h
        | link target =>
          rw [hlinks _ _ hentry]
          exact hfollow _ h
        | file bytes =>
          dsimp only at h
          split at h
          · rename_i hlast
            cases h
            rw [hreal, hentry]
            exact if_pos hlast
          · cases h
  have hwalkLinks (links : Nat) : ∀ names, walkLinks tree.lookup links names = some real →
      walkLinks tree'.lookup links names = some real := by
    induction links with
    | zero => exact fun names => hwalk (fun _ h => h) [] names
    | succ links ih => exact fun names => hwalk ih [] names
  exact hwalkLinks maxLinks path.reverse h

end

end Tree

end Fs
