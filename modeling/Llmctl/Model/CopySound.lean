import Llmctl.Fs.Copies
import Llmctl.Model.Install

/-!
# Copied directories

`copyDir` leaves at a new path what the directory has, all levels down, but for its links.
-/

namespace Llmctl.Install

open Fs

/-- Links are not copied. -/
def copied : Option Entry → Option Entry
  | some (.link _) => none
  | entry => entry

def copyEntry (depth : Nat) (source destination : Path) : OsString × Entry → FsM Unit
  | (name, .dir) => copyDir depth (name :: source) (name :: destination)
  | (name, .file _) => copyFile (name :: source) (name :: destination)
      s!"copy {display (name :: source)} to {display (name :: destination)}"
  | (_, .link _) => pure ()

theorem copyDir_succ (depth : Nat) (source destination : Path) : copyDir (depth + 1) source destination = (do
    createDirAll s!"create {display destination}" destination
    let tree ← get
    if !tree.isDir source then throw s!"read {display source}"
    else (tree.readDir source).forM (copyEntry depth source destination)) := by
  unfold copyDir
  congr
  funext _
  congr
  funext tree
  congr
  funext entry
  obtain ⟨name, entry⟩ := entry
  cases entry <;> rfl

/-- `source` leads to a directory, `parent` to another one outside of it, which has no such name. -/
structure Copyable (depth : Nat) (source real : Path) (name : OsString) (parent dir : Path) (tree : Tree) : Prop where
  source : tree.resolve source = some real
  isDir : tree.lookup real = some .dir
  parent : tree.resolve parent = some dir
  parentDir : tree.lookup dir = some .dir
  new : tree.lookup (name :: dir) = none
  outside : ¬ real <:+ name :: dir
  depth : ∀ rest, tree.lookup (rest ++ real) ≠ none → rest.length < depth

/-- What a copy leaves. -/
structure IsCopy (real top : Path) (tree tree' : Tree) : Prop where
  kept : KeptBut top tree tree'
  below : ∀ rest, tree'.lookup (rest ++ top) = copied (tree.lookup (rest ++ real))

def CopiesAt (depth : Nat) : Prop :=
  ∀ {source real : Path} {name : OsString} {parent dir : Path} {tree : Tree}, Copyable depth source real name parent dir tree →
    ∃ tree', Runs (copyDir depth source (name :: parent)) tree (.ok ()) tree' ∧ IsCopy real (name :: dir) tree tree'

section
variable {depth : Nat} {source real : Path} {name : OsString} {parent dir : Path} {tree mid : Tree}

/-- A leaf has nothing below it, in the copy as in the directory. -/
theorem below_leaf {tree' : Tree} {entry : Option Entry} {top : Path} (hleaf : entry ≠ some .dir)
    (hentry : tree.lookup real = entry) (htop : tree'.lookup top = copied entry) (rest : Path) :
    tree'.lookup (rest ++ top) = copied (tree.lookup (rest ++ real)) := by
  cases rest with
  | nil => rw [List.nil_append, List.nil_append, htop, hentry]
  | cons n rest =>
    have htop' : tree'.lookup top ≠ some .dir := by
      rw [htop]
      intro hdir
      unfold copied at hdir
      split at hdir
      · cases hdir
      · exact hleaf hdir
    rw [Tree.lookup_below_leaf htop' (List.cons_ne_nil _ _), Tree.lookup_below_leaf (hentry ▸ hleaf) (List.cons_ne_nil _ _)]
    rfl

/-- What is below a name of a directory is below no other name. -/
theorem eq_of_under {top rest : Path} {child other : OsString} (h : child :: top <:+ rest ++ other :: top) : child = other :=
  (List.cons.inj ((List.suffix_of_suffix_length_le h (List.suffix_append rest (other :: top)) le_rfl).eq_of_length rfl)).1

section
variable (hcopyable : Copyable (depth + 1) source real name parent dir tree) (hkept : KeptBut (name :: dir) tree mid)
include hcopyable hkept

/-- The directory is still as it was. -/
theorem lookup_source (rest : Path) : mid.lookup (rest ++ real) = tree.lookup (rest ++ real) := by
  refine hkept _ (not_under hcopyable.new ?_ hcopyable.outside rest)
  simp [hcopyable.isDir]

/-- One entry of a directory is copied, its name being free. -/
theorem runs_copyEntry (hcopies : CopiesAt depth) (hparent : mid.resolve (name :: parent) = some (name :: dir))
    (htop : mid.lookup (name :: dir) = some .dir) {entry : OsString × Entry}
    (hentry : tree.lookup (entry.1 :: real) = some entry.2) (hfree : mid.lookup (entry.1 :: name :: dir) = none) :
    ∃ tree', Runs (copyEntry depth source (name :: parent) entry) mid (.ok ()) tree' ∧
      KeptBut (entry.1 :: name :: dir) mid tree' ∧
      ∀ rest, tree'.lookup (rest ++ entry.1 :: name :: dir) = copied (tree.lookup (rest ++ entry.1 :: real)) := by
  obtain ⟨child, kind⟩ := entry
  dsimp only at hentry hfree ⊢
  have hresolve (hlink : ∀ target, kind ≠ .link target) : tree.resolve (child :: source) = some (child :: real) := by
    refine Tree.resolve_child hcopyable.source hcopyable.isDir fun target h => hlink target ?_
    rw [hentry] at h
    exact Option.some.inj h
  cases kind with
  | file bytes =>
    have hsource : mid.metadata (child :: source) = some (.file bytes) := by
      refine hkept.metadata hcopyable.new ?_
      rw [Tree.metadata, hresolve (by simp), Option.bind_some, hentry]
    refine ⟨_, runs_copyFile_new hparent htop hfree hsource, keptBut_set, below_leaf (by simp) hentry ?_⟩
    rw [Tree.lookup_set]
    rfl
  | link target => exact ⟨mid, runs_pure .., .refl _ _, below_leaf (by simp) hentry hfree⟩
  | dir =>
    have hchild : Copyable depth (child :: source) (child :: real) child (name :: parent) (name :: dir) mid := {
      source := hkept.resolve hcopyable.new (hresolve (by simp)) hentry
      isDir := hkept.lookup hcopyable.new hentry
      parent := hparent
      parentDir := htop
      new := hfree
      outside := by
        intro hsuffix
        rcases List.suffix_cons_iff.mp hsuffix with heq | hsuffix
        · have hisDir := hcopyable.isDir
          rw [(List.cons.inj heq).2, hcopyable.new] at hisDir
          cases hisDir
        · exact hcopyable.outside ((List.suffix_cons _ _).trans hsuffix)
      depth := by
        intro rest hsome
        rw [List.append_cons, lookup_source hcopyable hkept] at hsome
        have hlt := hcopyable.depth _ hsome
        rw [List.length_append] at hlt
        exact Nat.lt_of_succ_lt_succ hlt }
    obtain ⟨tree', hruns, hcopy⟩ := hcopies hchild
    refine ⟨tree', hruns, hcopy.kept, fun rest => ?_⟩
    rw [hcopy.below, List.append_cons, lookup_source hcopyable hkept, ← List.append_cons]

/-- One entry after the other is copied, and other names stay free. -/
theorem runs_copyEntries (hcopies : CopiesAt depth) {todo : List (OsString × Entry)} (hnodup : (todo.map Prod.fst).Nodup)
    (htodo : ∀ entry ∈ todo, tree.lookup (entry.1 :: real) = some entry.2)
    (hparent : mid.resolve (name :: parent) = some (name :: dir)) (htop : mid.lookup (name :: dir) = some .dir)
    (hfree : ∀ entry ∈ todo, mid.lookup (entry.1 :: name :: dir) = none) :
    ∃ tree', Runs (todo.forM (copyEntry depth source (name :: parent))) mid (.ok ()) tree' ∧
      KeptBut (name :: dir) tree tree' ∧ tree'.lookup (name :: dir) = some .dir ∧
      (∀ entry ∈ todo, ∀ rest, tree'.lookup (rest ++ entry.1 :: name :: dir) = copied (tree.lookup (rest ++ entry.1 :: real))) ∧
      ∀ child ∉ todo.map Prod.fst, ∀ rest, tree'.lookup (rest ++ child :: name :: dir) = mid.lookup (rest ++ child :: name :: dir) := by
  induction todo generalizing mid with
  | nil => exact ⟨mid, runs_pure .., hkept, htop, fun _ h => absurd h List.not_mem_nil, fun _ _ _ => rfl⟩
  | cons entry todo ih =>
    rw [List.map_cons, List.nodup_cons] at hnodup
    obtain ⟨hnew, hnodup⟩ := hnodup
    have hfreeEntry := hfree entry List.mem_cons_self
    obtain ⟨next, hruns, hnext, hcopied⟩ :=
      runs_copyEntry hcopyable hkept hcopies hparent htop (htodo entry List.mem_cons_self) hfreeEntry
    have hother {child : OsString} (hne : child ≠ entry.1) (rest : Path) :
        next.lookup (rest ++ child :: name :: dir) = mid.lookup (rest ++ child :: name :: dir) :=
      hnext _ fun hunder => hne (eq_of_under hunder).symm
    have hrest {e : OsString × Entry} (he : e ∈ todo) : e.1 ≠ entry.1 := fun h => hnew (h ▸ List.mem_map_of_mem he)
    obtain ⟨tree', hruns', hkept', htop', hcopied', hothers⟩ :=
      ih (hkept.trans (hnext.mono (List.suffix_cons _ _))) hnodup (fun e he => htodo e (List.mem_cons_of_mem _ he))
        (hnext.resolve hfreeEntry hparent htop) (hnext.lookup hfreeEntry htop)
        fun e he => (hother (hrest he) []).trans (hfree e (List.mem_cons_of_mem _ he))
    refine ⟨tree', hruns.bind hruns', hkept', htop', fun e he rest => ?_, fun child hchild rest => ?_⟩
    · rcases List.mem_cons.mp he with rfl | he
      · rw [hothers _ hnew, hcopied]
      · exact hcopied' e he rest
    · rw [List.map_cons, List.mem_cons, not_or] at hchild
      rw [hothers child hchild.2, hother hchild.1]

end

theorem mem_readDir (hsource : tree.resolve source = some real) {entry : OsString × Entry} :
    entry ∈ tree.readDir source ↔ tree.lookup (entry.1 :: real) = some entry.2 := by
  obtain ⟨child, kind⟩ := entry
  rw [Tree.readDir, hsource]
  dsimp only
  rw [List.mem_filterMap]
  constructor
  · intro h
    obtain ⟨other, _, h⟩ := h
    obtain ⟨found, hfound, hpair⟩ := Option.map_eq_some_iff.mp h
    cases hpair
    exact hfound
  · intro h
    refine ⟨child, (tree.mem_names child real).mpr ?_, ?_⟩
    · rw [h]
      exact Option.some_ne_none _
    · rw [h]
      rfl

theorem nodup_readDir : ((tree.readDir source).map Prod.fst).Nodup := by
  unfold Tree.readDir
  split
  · rename_i real _
    refine List.Nodup.sublist ?_ (tree.nodup real)
    rw [List.map_filterMap]
    have hnames : (tree.names real).filterMap (fun name =>
        ((tree.lookup (name :: real)).map fun entry => (name, entry)).map Prod.fst) =
        (tree.names real).filter fun name => (tree.lookup (name :: real)).isSome := by
      rw [← List.filterMap_eq_filter]
      congr 1
      funext name
      cases h : tree.lookup (name :: real) <;> simp [Option.guard, h]
    rw [hnames]
    exact List.filter_sublist
  · exact List.nodup_nil

/-- All levels are copied, and nothing else changes. -/
theorem copiesAt (depth : Nat) : CopiesAt depth := by
  induction depth with
  | zero =>
    intro source real name parent dir tree h
    have hreal : tree.lookup ([] ++ real) ≠ none := by
      rw [List.nil_append, h.isDir]
      exact Option.some_ne_none _
    exact absurd (h.depth [] hreal) (Nat.not_lt_zero _)
  | succ depth ih =>
    intro source real name parent dir tree h
    have hkept : KeptBut (name :: dir) tree (tree.set name dir .dir h.parentDir (ne_dir_of_new h.new)) := keptBut_set
    have hparent := hkept.resolve h.new h.parent h.parentDir
    have htop : (tree.set name dir .dir h.parentDir (ne_dir_of_new h.new)).lookup (name :: dir) = some .dir := Tree.lookup_set
    have hempty (rest : Path) (child : OsString) :
        (tree.set name dir .dir h.parentDir (ne_dir_of_new h.new)).lookup (rest ++ child :: name :: dir) = none := by
      rw [Tree.lookup_set_of_ne, List.append_cons]
      · exact Tree.lookup_below h.new _
      · intro heq
        have hlength := congrArg List.length heq
        rw [List.length_append, List.length_cons] at hlength
        omega
    have hread := runs_createDirAll_new h.parent h.parentDir h.new s!"create {display (name :: parent)}"
    generalize tree.set name dir .dir h.parentDir (ne_dir_of_new h.new) = mid at hkept hparent htop hempty hread
    have hsource := hkept.resolve h.new h.source h.isDir
    have hentries {entry : OsString × Entry} : entry ∈ mid.readDir source ↔ tree.lookup (entry.1 :: real) = some entry.2 := by
      rw [mem_readDir hsource]
      exact Eq.congr_left (lookup_source h hkept [entry.1])
    have hdestination : mid.resolve (name :: parent) = some (name :: dir) := by
      refine Tree.resolve_child hparent (hkept.lookup h.new h.parentDir) ?_
      simp [htop]
    obtain ⟨tree', hruns, hkept', htop', hcopied, hothers⟩ := runs_copyEntries h hkept ih nodup_readDir (fun _ => hentries.mp)
      hdestination htop fun entry _ => hempty [] entry.1
    refine ⟨tree', ?_, hkept', fun rest => ?_⟩
    · rw [copyDir_succ]
      refine hread.bind (runs_get ?_)
      rw [isDir_of_resolve hsource (hkept.lookup h.new h.isDir)]
      exact hruns
    · rcases List.eq_nil_or_concat rest with rfl | ⟨rest, child, rfl⟩
      · rw [List.nil_append, List.nil_append, htop', h.isDir]
        rfl
      · rw [List.concat_append, List.concat_append]
        cases hchild : tree.lookup (child :: real) with
        | some entry => exact hcopied (child, entry) (hentries.mpr hchild) rest
        | none =>
          have hnot : child ∉ (mid.readDir source).map Prod.fst := by
            intro hmem
            obtain ⟨entry, hentry, rfl⟩ := List.mem_map.mp hmem
            rw [hentries.mp hentry] at hchild
            cases hchild
          rw [hothers child hnot, hempty, Tree.lookup_below hchild]
          rfl

end

end Llmctl.Install
