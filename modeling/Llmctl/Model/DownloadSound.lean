import Llmctl.Fs.Runs
import Llmctl.Model.Destinations

/-!
# Downloads that were interrupted

A download goes on where the file under the `.part` name of its destination ends. A server
refuses a range that begins at the end of its file or after it, so a partial file that long
is never got rid of (`recoversInTwo_iff`).
-/

namespace Llmctl.Install

open Fs

/-! ## Servers -/

/-- The answer to a request, read to its end. -/
def Sends (network : Network) (url : String) (start : Option Nat) (partialContent : Bool) (bytes : List UInt8) : Prop :=
  ∃ chunks, network.send url start = .ok ⟨partialContent, chunks, none⟩ ∧ chunks.flatten = bytes

/-- A server of a file under a URL that passes the checks. A range is answered with the range, with
the whole file or, if it begins at the end of the file or after it, with a refusal. -/
structure Serves (network : Network) (url : String) (content : List UInt8) : Prop where
  url_ok : network.validateDirectDownloadUrl url = .ok ()
  public_ok : network.validateDirectDownloadResolvesPublic url = .ok ()
  whole : Sends network url none false content
  range : ∀ start, Sends network url (some start) false content ∨
    (start < content.length ∧ Sends network url (some start) true (content.drop start)) ∨
    (content.length ≤ start ∧ ∃ e, network.send url (some start) = .error e)

section
variable (sha256 : List UInt8 → String) (url : String) (cacheDir : Path)

def destinationOf (tree : Tree) : Path := uniqueDestination tree cacheDir [urlName url]

def partOf (tree : Tree) : Path := withExtension (osString "part") (destinationOf url cacheDir tree)

/-- A call succeeds: nothing is left of an earlier one, or the server sends the whole file, or what it
sends completes what is left. -/
def Ready (content : List UInt8) (network : Network) (tree : Tree) : Prop :=
  match tree.lookup (partOf url cacheDir tree) with
  | none => True
  | some (.file left) => left = [] ∨ Sends network url (some left.length) false content ∨
      (left.length < content.length ∧ sha256 (left ++ content.drop left.length) = sha256 content)
  | some _ => False

/-- The tree that a call leaves that does not succeed. A partial file is removed if it is shorter than
the file. -/
def afterFailure (content : List UInt8) (tree : Tree) : Tree :=
  if fileLen tree (partOf url cacheDir tree) < content.length then ((removeFile (partOf url cacheDir tree) "").run.run tree).2 else tree

variable (nameHint expected : String)

def download (network : Network) (tree : Tree) : Result Path × Tree :=
  (downloadModel sha256 network url cacheDir nameHint expected).run.run tree

/-- What is returned has the digest, and nothing new is at the destination if nothing is returned. -/
structure KeepsDestination (content : List UInt8) (network : Network) (tree : Tree) : Prop where
  digest : ∀ path, (download sha256 url cacheDir nameHint expected network tree).1 = .ok path →
    path = destinationOf url cacheDir tree ∧
    sha256File sha256 (download sha256 url cacheDir nameHint expected network tree).2 path = .ok (sha256 content)
  absent : ∀ e, (download sha256 url cacheDir nameHint expected network tree).1 = .error e →
    (download sha256 url cacheDir nameHint expected network tree).2.isPresent (destinationOf url cacheDir tree) = true →
    tree.isPresent (destinationOf url cacheDir tree) = true

/-- One of two calls succeeds, and neither does harm to the destination. -/
structure RecoversInTwo (content : List UInt8) (first second : Network) (tree : Tree) : Prop where
  succeeds : (∃ path, (download sha256 url cacheDir nameHint expected first tree).1 = .ok path) ∨
    ∃ path, (download sha256 url cacheDir nameHint expected second
      (download sha256 url cacheDir nameHint expected first tree).2).1 = .ok path
  first_keeps : KeepsDestination sha256 url cacheDir nameHint expected content first tree
  second_keeps : KeepsDestination sha256 url cacheDir nameHint expected content second
    (download sha256 url cacheDir nameHint expected first tree).2

end

/-- A file of the content's digest is under the path, and no link has come up. -/
structure Stored (sha256 : List UInt8 → String) (digest : String) (path : Path) (tree tree' : Tree) : Prop where
  file : ∃ bytes, tree'.lookup path = some (.file bytes) ∧ sha256 bytes = digest
  no_link : ∀ other target, tree'.lookup other = some (.link target) → tree.lookup other = some (.link target)

/-! ## One call -/

section
variable {sha256 : List UInt8 → String} {tree : Tree} {dir : Path} {name partName : OsString} {bytes : List UInt8} {expected : String}

theorem sha256File_file (hdir : tree.lookup dir = some .dir) (hfile : tree.lookup (name :: dir) = some (.file bytes)) :
    sha256File sha256 tree (name :: dir) = .ok (sha256 bytes) := by
  have hmeta : tree.metadata (name :: dir) = some (.file bytes) := by
    rw [Tree.metadata, Tree.resolve_entry hdir (by simp [hfile]), Option.bind_some, hfile]
  rw [sha256File, hmeta]

section
variable (hdir : tree.lookup dir = some .dir) (hpart : tree.lookup (partName :: dir) = some (.file bytes))
  (hname : isGguf name = true) (hstr : toStr name = some name) {digest : String} (hdigest : normalizedSha256 expected = .ok digest)
include hdir hpart hname hstr hdigest

/-- What has been received is stored under its name. -/
theorem runs_verify (hne : partName ≠ name) (hleaf : tree.lookup (name :: dir) ≠ some .dir) (hsha : sha256 bytes = digest) :
    ∃ tree', Runs (verifyDownloadedModel sha256 (partName :: dir) (name :: dir) expected) tree (.ok ()) tree' ∧
      Stored sha256 digest (name :: dir) tree tree' := by
  obtain ⟨tree', hrename, hmoved, hlinks⟩ := runs_rename hdir hne hpart nofun hleaf
  refine ⟨tree', ?_, ⟨bytes, hmoved, hsha⟩, fun path target hlink => ?_⟩
  on_goal 2 =>
    refine hlinks path target ?_ hlink
    rintro rfl
    rw [hmoved] at hlink
    cases hlink
  unfold verifyDownloadedModel
  rw [List.head?_cons, Option.bind_some, hstr]
  refine (runs_liftResult_ok (supported_of_isGguf hname)).bind ?_
  rw [not_safetensors hname, if_neg Bool.false_ne_true]
  refine (runs_liftResult_ok hdigest).bind (runs_get ?_)
  refine (runs_liftResult_ok (sha256File_file hdir hpart)).bind ?_
  rw [if_neg (not_not.mpr hsha)]
  exact hrename

/-- What has another digest is removed. -/
theorem runs_verify_mismatch (hsha : sha256 bytes ≠ digest) (hleaf : tree.lookup (partName :: dir) ≠ some .dir) :
    Runs (verifyDownloadedModel sha256 (partName :: dir) (name :: dir) expected) tree
      (.error s!"sha256 mismatch for {display (name :: dir)}: expected {digest}, got {sha256 bytes}")
      (tree.unset partName dir hleaf) := by
  have hsome : tree.lookup (partName :: dir) ≠ none := by
    rw [hpart]
    exact Option.some_ne_none _
  unfold verifyDownloadedModel
  rw [List.head?_cons, Option.bind_some, hstr]
  refine (runs_liftResult_ok (supported_of_isGguf hname)).bind ?_
  rw [not_safetensors hname, if_neg Bool.false_ne_true]
  refine (runs_liftResult_ok hdigest).bind (runs_get ?_)
  refine (runs_liftResult_ok (sha256File_file hdir hpart)).bind ?_
  rw [if_pos hsha]
  exact (runs_attempt (runs_removeFile hdir hsome hleaf)).bind (runs_throw ..)

end

end

/-- The names of the destination and of the partial file. -/
structure Places (url : String) (cacheDir : Path) (tree : Tree) (name partName : OsString) : Prop where
  destination : destinationOf url cacheDir tree = name :: cacheDir
  part : partOf url cacheDir tree = partName :: cacheDir
  isPart : isPart partName = true
  free : tree.isPresent (name :: cacheDir) = false
  gguf : isGguf name = true
  str : toStr name = some name

section
variable {sha256 : List UInt8 → String} {url : String} {cacheDir : Path} {tree : Tree} {name partName : OsString}

theorem exists_places (hcache : tree.lookup cacheDir = some .dir) (hurl : isGguf (urlName url) = true) :
    ∃ name partName, Places url cacheDir tree name partName := by
  obtain ⟨name, hdest, hfree, hgguf, hstr⟩ := destination_spec hcache hurl (toStr_osString _)
  obtain ⟨stem, hstem⟩ := withExtension_cons (osString "part") name cacheDir
  rw [if_neg (by decide +kernel)] at hstem
  refine ⟨name, stem ++ [46] ++ osString "part", hdest, ?_, isPart_extension stem, hfree, hgguf, hstr⟩
  rw [partOf, destinationOf, hdest, hstem]

theorem Places.ne (hplaces : Places url cacheDir tree name partName) : partName ≠ name := by
  rintro rfl
  have hsupported : isSupportedModelFilename partName = true := Bool.or_eq_true_iff.mpr (.inl hplaces.gguf)
  have hpart := hplaces.isPart
  rw [not_isPart hsupported] at hpart
  cases hpart

theorem Places.not_dir (hplaces : Places url cacheDir tree name partName) : tree.lookup (name :: cacheDir) ≠ some .dir := by
  intro hentry
  have hfree := hplaces.free
  rw [Tree.isPresent, Tree.metadata, Tree.resolve_dir hentry, Option.bind_some, hentry] at hfree
  cases hfree

def finish (sha256 : List UInt8 → String) (part destination : Path) (digest : String) : FsM Path := do
  verifyDownloadedModel sha256 part destination digest
  pure destination

/-- What a call does with the answer of the server. -/
def receive (sha256 : List UInt8 → String) (url : String) (part destination : Path) (partLen : Nat) (response : Response)
    (digest : String) : FsM Path := do
  if 0 < partLen ∧ response.partialContent = true then
    appendFile part response.chunks.flatten s!"open partial download {display part}"
  else createFile part response.chunks.flatten s!"create partial download {display part}"
  match response.readError with
  | some _ =>
    attempt (removeFile part "")
    throw s!"read model download from {url}"
  | none => finish sha256 part destination digest

section
variable {network : Network} {content : List UInt8} (hcache : tree.lookup cacheDir = some .dir) (hurl : isGguf (urlName url) = true)
  (hserves : Serves network url content) {nameHint expected digest : String} (hdigest : normalizedSha256 expected = .ok digest)
include hcache hurl hserves hdigest

theorem runs_download {response : Response} {result : Result Path} {tree' : Tree}
    (hsend : network.send url (if 0 < fileLen tree (partOf url cacheDir tree) then some (fileLen tree (partOf url cacheDir tree)) else none) =
      .ok response)
    (h : Runs (receive sha256 url (partOf url cacheDir tree) (destinationOf url cacheDir tree) (fileLen tree (partOf url cacheDir tree))
      response digest) tree result tree') :
    Runs (downloadModel sha256 network url cacheDir nameHint expected) tree result tree' := by
  refine (runs_liftResult_ok hserves.url_ok).bind ((runs_liftResult_ok hserves.public_ok).bind ?_)
  refine (runs_liftResult_ok hdigest).bind ((runs_createDirAll hcache).bind ?_)
  refine (runs_liftResult_ok (downloadFilename_urlName hurl nameHint)).bind (runs_get ?_)
  rw [components_urlName hurl]
  exact (runs_liftResult_ok hsend).bind h

theorem runs_download_refused {e : String}
    (hsend : network.send url (if 0 < fileLen tree (partOf url cacheDir tree) then some (fileLen tree (partOf url cacheDir tree)) else none) =
      .error e) :
    Runs (downloadModel sha256 network url cacheDir nameHint expected) tree (.error e) tree := by
  refine (runs_liftResult_ok hserves.url_ok).bind ((runs_liftResult_ok hserves.public_ok).bind ?_)
  refine (runs_liftResult_ok hdigest).bind ((runs_createDirAll hcache).bind ?_)
  refine (runs_liftResult_ok (downloadFilename_urlName hurl nameHint)).bind (runs_get ?_)
  rw [components_urlName hurl]
  exact (runs_liftResult_error hsend).bind_error

end

end

section
variable {sha256 : List UInt8 → String} {url : String} {tree : Tree}

section
variable {response : Response} {partLen : Nat} {digest : String} {mid tree' : Tree} {result : Result Path} (hread : response.readError = none)
include hread

theorem runs_receive_appended {part destination : Path} (hrange : 0 < partLen ∧ response.partialContent = true)
    (hstore : Runs (appendFile part response.chunks.flatten s!"open partial download {display part}") tree (.ok ()) mid)
    (hdone : Runs (finish sha256 part destination digest) mid result tree') :
    Runs (receive sha256 url part destination partLen response digest) tree result tree' := by
  unfold receive
  dsimp only
  rw [if_pos hrange, hread]
  exact hstore.bind hdone

theorem runs_receive_created {part destination : Path} (hwhole : ¬ (0 < partLen ∧ response.partialContent = true))
    (hstore : Runs (createFile part response.chunks.flatten s!"create partial download {display part}") tree (.ok ()) mid)
    (hdone : Runs (finish sha256 part destination digest) mid result tree') :
    Runs (receive sha256 url part destination partLen response digest) tree result tree' := by
  unfold receive
  dsimp only
  rw [if_neg hwhole, hread]
  exact hstore.bind hdone

end

theorem runs_receive_dir {part destination : Path} {response : Response} {partLen : Nat} {digest : String}
    (hwhole : ¬ (0 < partLen ∧ response.partialContent = true))
    (hstore : Runs (createFile part response.chunks.flatten s!"create partial download {display part}") tree
      (.error s!"create partial download {display part}") tree) :
    Runs (receive sha256 url part destination partLen response digest) tree (.error s!"create partial download {display part}") tree := by
  unfold receive
  dsimp only
  rw [if_neg hwhole]
  exact hstore.bind_error

end

/-! ## What a call does -/

section
variable {sha256 : List UInt8 → String} {url : String} {cacheDir : Path} {tree : Tree} {network : Network} {content : List UInt8}
  (hcache : tree.lookup cacheDir = some .dir)
  (hlinks : ∀ name target, isPart name = true → tree.lookup (name :: cacheDir) ≠ some (.link target))
  (hurl : isGguf (urlName url) = true) (hserves : Serves network url content) (nameHint : String) {expected : String}
  (hdigest : normalizedSha256 expected = .ok (sha256 content))
include hcache hlinks hurl hserves hdigest

omit hlinks hurl hserves hdigest in
theorem fileLen_file {name : OsString} {bytes : List UInt8} (hfile : tree.lookup (name :: cacheDir) = some (.file bytes)) :
    fileLen tree (name :: cacheDir) = bytes.length := by
  rw [fileLen, Tree.metadata, Tree.resolve_entry hcache (by simp [hfile]), Option.bind_some, hfile]

omit hlinks hurl hserves hdigest in
theorem fileLen_other {name : OsString} (hother : tree.lookup (name :: cacheDir) = none ∨ tree.lookup (name :: cacheDir) = some .dir) :
    fileLen tree (name :: cacheDir) = 0 := by
  rcases hother with hnone | hdir
  · rw [fileLen, Tree.metadata, Tree.resolve_entry hcache (by simp [hnone]), Option.bind_some, hnone]
  · rw [fileLen, Tree.metadata, Tree.resolve_entry hcache (by simp [hdir]), Option.bind_some, hdir]

omit hlinks hurl hserves in
/-- What is stored and has the digest is moved to the destination; else it is removed. -/
theorem runs_finish {name partName : OsString} (hplaces : Places url cacheDir tree name partName) (bytes : List UInt8)
    (hleaf : tree.lookup (partName :: cacheDir) ≠ some .dir) :
    (sha256 bytes = sha256 content → ∃ tree',
      Runs (finish sha256 (partName :: cacheDir) (name :: cacheDir) (sha256 content)) (tree.set partName cacheDir (.file bytes) hcache hleaf) (.ok (name :: cacheDir)) tree' ∧
      Stored sha256 (sha256 content) (name :: cacheDir) tree tree') ∧
    (sha256 bytes ≠ sha256 content → ∃ e hleaf',
      Runs (finish sha256 (partName :: cacheDir) (name :: cacheDir) (sha256 content)) (tree.set partName cacheDir (.file bytes) hcache hleaf) (.error e)
        ((tree.set partName cacheDir (.file bytes) hcache hleaf).unset partName cacheDir hleaf')) := by
  have hagain := normalizedSha256_again hdigest
  have hstored : (tree.set partName cacheDir (.file bytes) hcache hleaf).lookup (partName :: cacheDir) = some (.file bytes) :=
    Tree.lookup_set
  have hcache' : (tree.set partName cacheDir (.file bytes) hcache hleaf).lookup cacheDir = some .dir := by
    rw [Tree.lookup_set_of_ne (List.cons_ne_self _ _).symm, hcache]
  constructor
  · intro hsha
    have hfree : (tree.set partName cacheDir (.file bytes) hcache hleaf).lookup (name :: cacheDir) ≠ some .dir := by
      rw [Tree.lookup_set_of_ne fun h => hplaces.ne (List.cons.inj h).1.symm]
      exact hplaces.not_dir
    obtain ⟨tree', hverify, hfile, hlinks⟩ := runs_verify hcache' hstored hplaces.gguf hplaces.str hagain hplaces.ne hfree hsha
    refine ⟨tree', hverify.bind (runs_pure ..), hfile, fun other target hlink => ?_⟩
    have hlink' := hlinks other target hlink
    by_cases hother : other = partName :: cacheDir
    · rw [hother, hstored] at hlink'
      cases hlink'
    · rwa [Tree.lookup_set_of_ne hother] at hlink'
  · intro hsha
    have hleaf' : (tree.set partName cacheDir (.file bytes) hcache hleaf).lookup (partName :: cacheDir) ≠ some .dir := by
      simp [hstored]
    exact ⟨_, hleaf', (runs_verify_mismatch hcache' hstored hplaces.gguf hplaces.str hagain hsha hleaf').bind_error⟩

/-- The whole file is stored and has its digest. -/
theorem runs_whole {name partName : OsString} (hplaces : Places url cacheDir tree name partName)
    (hleaf : tree.lookup (partName :: cacheDir) ≠ some .dir)
    (hsends : Sends network url (if 0 < fileLen tree (partName :: cacheDir) then some (fileLen tree (partName :: cacheDir)) else none)
      false content) :
    ∃ tree', Runs (downloadModel sha256 network url cacheDir nameHint expected) tree (.ok (name :: cacheDir)) tree' ∧
      Stored sha256 (sha256 content) (name :: cacheDir) tree tree' := by
  obtain ⟨chunks, hsend, rfl⟩ := hsends
  obtain ⟨tree', hfinish, hstored⟩ := (runs_finish hcache hdigest hplaces chunks.flatten hleaf).1 rfl
  refine ⟨tree', runs_download hcache hurl hserves hdigest (by rw [hplaces.part]; exact hsend) ?_, hstored⟩
  rw [hplaces.part, hplaces.destination]
  refine runs_receive_created rfl (fun h => Bool.false_ne_true h.2) ?_ hfinish
  exact runs_createFile hcache _ (fun target => hlinks partName target hplaces.isPart) hleaf

omit hlinks in
/-- What a partial file lacks is sent and appended. -/
theorem runs_rest {name partName : OsString} (hplaces : Places url cacheDir tree name partName) {left : List UInt8}
    (hleft : tree.lookup (partName :: cacheDir) = some (.file left)) (hne : left ≠ [])
    (hsends : Sends network url (some left.length) true (content.drop left.length)) :
    (sha256 (left ++ content.drop left.length) = sha256 content → ∃ tree',
      Runs (downloadModel sha256 network url cacheDir nameHint expected) tree (.ok (name :: cacheDir)) tree' ∧
      Stored sha256 (sha256 content) (name :: cacheDir) tree tree') ∧
    (sha256 (left ++ content.drop left.length) ≠ sha256 content → ∃ e hleaf,
      Runs (downloadModel sha256 network url cacheDir nameHint expected) tree (.error e) (tree.unset partName cacheDir hleaf)) := by
  have hleaf : tree.lookup (partName :: cacheDir) ≠ some .dir := by
    simp [hleft]
  have hsome : tree.lookup (partName :: cacheDir) ≠ none := by
    simp [hleft]
  have hlen : fileLen tree (partName :: cacheDir) = left.length := fileLen_file hcache hleft
  have hpos : 0 < left.length := List.length_pos_iff.mpr hne
  obtain ⟨chunks, hsend, hrest⟩ := hsends
  have hanswer : network.send url (if 0 < fileLen tree (partOf url cacheDir tree) then some (fileLen tree (partOf url cacheDir tree))
      else none) = .ok ⟨true, chunks, none⟩ := by
    rw [hplaces.part, hlen, if_pos hpos]
    exact hsend
  have hstore : Runs (appendFile (partName :: cacheDir) chunks.flatten s!"open partial download {display (partName :: cacheDir)}") tree
      (.ok ()) (tree.set partName cacheDir (.file (left ++ chunks.flatten)) hcache hleaf) := runs_appendFile hcache _ hleft hleaf
  rw [hrest] at hstore
  have hcall {result : Result Path} {tree' : Tree}
      (h : Runs (finish sha256 (partName :: cacheDir) (name :: cacheDir) (sha256 content))
        (tree.set partName cacheDir (.file (left ++ content.drop left.length)) hcache hleaf) result tree') :
      Runs (downloadModel sha256 network url cacheDir nameHint expected) tree result tree' := by
    refine runs_download hcache hurl hserves hdigest hanswer ?_
    rw [hplaces.part, hplaces.destination, hlen]
    exact runs_receive_appended rfl ⟨hpos, rfl⟩ (by rw [hrest]; exact hstore) h
  obtain ⟨hgood, hbad⟩ := runs_finish hcache hdigest hplaces (left ++ content.drop left.length) hleaf
  constructor
  · intro hsha
    obtain ⟨tree', hfinish, hstored⟩ := hgood hsha
    exact ⟨tree', hcall hfinish, hstored⟩
  · intro hsha
    obtain ⟨e, hleaf', hfinish⟩ := hbad hsha
    rw [Tree.unset_set hsome] at hfinish
    exact ⟨e, hleaf, hcall hfinish⟩

theorem runs_of_ready (hready : Ready sha256 url cacheDir content network tree) :
    ∃ tree', Runs (downloadModel sha256 network url cacheDir nameHint expected) tree (.ok (destinationOf url cacheDir tree)) tree' ∧
      Stored sha256 (sha256 content) (destinationOf url cacheDir tree) tree tree' := by
  obtain ⟨name, partName, hplaces⟩ := exists_places hcache hurl
  rw [hplaces.destination]
  unfold Ready at hready
  rw [hplaces.part] at hready
  split at hready
  · -- nothing is left
    rename_i hnone
    refine runs_whole hcache hlinks hurl hserves nameHint hdigest hplaces (by simp [hnone]) ?_
    rw [fileLen_other hcache (.inl hnone)]
    exact hserves.whole
  · rename_i left hleft
    have hlen := fileLen_file hcache hleft
    have hleaf : tree.lookup (partName :: cacheDir) ≠ some .dir := by
      simp [hleft]
    by_cases hnil : left = []
    · refine runs_whole hcache hlinks hurl hserves nameHint hdigest hplaces hleaf ?_
      rw [hlen, hnil]
      exact hserves.whole
    · have hpos : 0 < left.length := List.length_pos_iff.mpr hnil
      rcases hready with hempty | hwhole | ⟨hshort, hsha⟩
      · exact absurd hempty hnil
      · refine runs_whole hcache hlinks hurl hserves nameHint hdigest hplaces hleaf ?_
        rw [hlen, if_pos hpos]
        exact hwhole
      · rcases hserves.range left.length with hwhole | ⟨-, hrest⟩ | ⟨hlong, -⟩
        · refine runs_whole hcache hlinks hurl hserves nameHint hdigest hplaces hleaf ?_
          rw [hlen, if_pos hpos]
          exact hwhole
        · exact (runs_rest hcache hurl hserves nameHint hdigest hplaces hleft hnil hrest).1 hsha
        · exact absurd hshort (Nat.not_lt.mpr hlong)
  · exact hready.elim

theorem runs_of_not_ready (hready : ¬ Ready sha256 url cacheDir content network tree) :
    ∃ e, Runs (downloadModel sha256 network url cacheDir nameHint expected) tree (.error e) (afterFailure url cacheDir content tree) := by
  obtain ⟨name, partName, hplaces⟩ := exists_places hcache hurl
  unfold Ready at hready
  unfold afterFailure
  rw [hplaces.part] at hready ⊢
  split at hready
  · exact absurd trivial hready
  · rename_i left hleft
    have hlen := fileLen_file hcache hleft
    obtain ⟨hnil, hnot⟩ := not_or.mp hready
    obtain ⟨hnotWhole, hnotRest⟩ := not_or.mp hnot
    have hpos : 0 < left.length := List.length_pos_iff.mpr hnil
    rw [hlen]
    rcases hserves.range left.length with hwhole | ⟨hshort, hrest⟩ | ⟨hlong, e, hrefused⟩
    · exact absurd hwhole hnotWhole
    · obtain ⟨e, hleaf, hcall⟩ := (runs_rest hcache hurl hserves nameHint hdigest hplaces hleft hnil hrest).2 fun hsha => hnotRest ⟨hshort, hsha⟩
      have hremoved : Runs (removeFile (partName :: cacheDir) "") tree (.ok ()) (tree.unset partName cacheDir hleaf) :=
        runs_removeFile hcache (by simp [hleft]) hleaf
      refine ⟨e, ?_⟩
      rw [if_pos hshort, hremoved]
      exact hcall
    · refine ⟨e, ?_⟩
      rw [if_neg (Nat.not_lt.mpr hlong)]
      refine runs_download_refused hcache hurl hserves hdigest ?_
      rw [hplaces.part, hlen, if_pos hpos]
      exact hrefused
  · -- a directory is where the partial file should be
    rename_i entry hnotFile hentry
    have hdir : tree.lookup (partName :: cacheDir) = some .dir := by
      cases entry with
      | dir => exact hentry
      | file bytes => exact absurd rfl (hnotFile bytes)
      | link target => exact absurd hentry (hlinks partName target hplaces.isPart)
    have hlen := fileLen_other hcache (.inr hdir)
    obtain ⟨chunks, hsend, -⟩ := hserves.whole
    have hstays : Runs (removeFile (partName :: cacheDir) "") tree (.error "") tree := runs_removeFile_none hcache (.inr hdir)
    have hafter : (if fileLen tree (partName :: cacheDir) < content.length then ((removeFile (partName :: cacheDir) "").run.run tree).2
        else tree) = tree := by
      rw [hstays]
      exact ite_self _
    rw [hafter]
    refine ⟨s!"create partial download {display (partName :: cacheDir)}", ?_⟩
    refine runs_download hcache hurl hserves hdigest (by rw [hplaces.part, hlen]; exact hsend) ?_
    rw [hplaces.part, hplaces.destination]
    exact runs_receive_dir (fun h => Bool.false_ne_true h.2) (runs_createFile_dir hcache _ hdir)

theorem succeeds_iff :
    (∃ path, (download sha256 url cacheDir nameHint expected network tree).1 = .ok path) ↔ Ready sha256 url cacheDir content network tree := by
  by_cases hready : Ready sha256 url cacheDir content network tree
  · obtain ⟨tree', hcall, -⟩ := runs_of_ready hcache hlinks hurl hserves nameHint hdigest hready
    exact iff_of_true ⟨_, congrArg Prod.fst hcall⟩ hready
  · obtain ⟨e, hcall⟩ := runs_of_not_ready hcache hlinks hurl hserves nameHint hdigest hready
    refine iff_of_false ?_ hready
    rintro ⟨path, hpath⟩
    exact absurd ((congrArg Prod.fst hcall).symm.trans hpath) nofun

omit hlinks hurl hserves hdigest in
/-- A partial file is removed, or nothing is. -/
theorem afterFailure_eq {name partName : OsString} (hplaces : Places url cacheDir tree name partName) :
    afterFailure url cacheDir content tree = tree ∨ ∃ hleaf, afterFailure url cacheDir content tree = tree.unset partName cacheDir hleaf := by
  unfold afterFailure
  rw [hplaces.part]
  split
  · by_cases h : tree.lookup (partName :: cacheDir) = none ∨ tree.lookup (partName :: cacheDir) = some .dir
    · exact .inl (congrArg Prod.snd (runs_removeFile_none hcache h))
    · obtain ⟨hsome, hleaf⟩ := not_or.mp h
      exact .inr ⟨hleaf, congrArg Prod.snd (runs_removeFile hcache hsome hleaf)⟩
  · exact .inl rfl

theorem keepsDestination : KeepsDestination sha256 url cacheDir nameHint expected content network tree := by
  by_cases hready : Ready sha256 url cacheDir content network tree
  · obtain ⟨tree', hcall, ⟨bytes, hmoved, hsha⟩, -⟩ := runs_of_ready hcache hlinks hurl hserves nameHint hdigest hready
    have hdownload : download sha256 url cacheDir nameHint expected network tree = (.ok (destinationOf url cacheDir tree), tree') := hcall
    refine ⟨fun path hpath => ?_, fun e he => ?_⟩
    · rw [hdownload] at hpath ⊢
      cases hpath
      obtain ⟨name, partName, hplaces⟩ := exists_places hcache hurl
      rw [hplaces.destination] at hmoved ⊢
      have hcache' : tree'.lookup cacheDir = some .dir := tree'.parent name cacheDir (by simp [hmoved])
      exact ⟨rfl, (sha256File_file hcache' hmoved).trans (congrArg Except.ok hsha)⟩
    · rw [hdownload] at he
      cases he
  · obtain ⟨e, hcall⟩ := runs_of_not_ready hcache hlinks hurl hserves nameHint hdigest hready
    have hdownload : download sha256 url cacheDir nameHint expected network tree = (.error e, afterFailure url cacheDir content tree) :=
      hcall
    refine ⟨fun path hpath => ?_, fun e _ hpresent => ?_⟩
    · rw [hdownload] at hpath
      cases hpath
    · rw [hdownload] at hpresent
      obtain ⟨name, partName, hplaces⟩ := exists_places hcache hurl
      rcases afterFailure_eq hcache hplaces with hsame | ⟨hleaf, hremoved⟩
      · rwa [hsame] at hpresent
      · rw [hremoved] at hpresent
        have hpresent' : (tree.unset partName cacheDir hleaf).isPresent (destinationOf url cacheDir tree) = true := hpresent
        exact Tree.isPresent_unset hpresent'

end

/-- A download succeeds within two calls where the first is ready, or the second is after a first one
that fails; a partial file that is not shorter than the file stays. -/
theorem recoversInTwo_iff (sha256 : List UInt8 → String) {url : String} {cacheDir : Path} {tree : Tree} {first second : Network}
    {content : List UInt8} (hcache : tree.lookup cacheDir = some .dir)
    (hlinks : ∀ name target, isPart name = true → tree.lookup (name :: cacheDir) ≠ some (.link target))
    (hurl : isGguf (urlName url) = true) (hfirst : Serves first url content) (hsecond : Serves second url content)
    (nameHint : String) {expected : String} (hdigest : normalizedSha256 expected = .ok (sha256 content)) :
    RecoversInTwo sha256 url cacheDir nameHint expected content first second tree ↔
      Ready sha256 url cacheDir content first tree ∨
        Ready sha256 url cacheDir content second (afterFailure url cacheDir content tree) := by
  have hafter : (afterFailure url cacheDir content tree).lookup cacheDir = some .dir ∧
      ∀ name target, isPart name = true → (afterFailure url cacheDir content tree).lookup (name :: cacheDir) ≠ some (.link target) := by
    obtain ⟨name, partName, hplaces⟩ := exists_places hcache hurl
    rcases afterFailure_eq hcache hplaces with hsame | ⟨hleaf, hremoved⟩
    · rw [hsame]
      exact ⟨hcache, hlinks⟩
    · rw [hremoved]
      refine ⟨by rw [Tree.lookup_unset_of_ne (List.cons_ne_self _ _).symm, hcache], fun other target hother => ?_⟩
      by_cases hname : other :: cacheDir = partName :: cacheDir
      · rw [hname, Tree.lookup_unset]
        simp
      · rw [Tree.lookup_unset_of_ne hname]
        exact hlinks other target hother
  have hcalls := succeeds_iff hcache hlinks hurl hfirst nameHint hdigest
  have hkeeps := keepsDestination hcache hlinks hurl hfirst nameHint hdigest
  have hcalls' := succeeds_iff hafter.1 hafter.2 hurl hsecond nameHint hdigest
  have hkeeps' := keepsDestination hafter.1 hafter.2 hurl hsecond nameHint hdigest
  by_cases hready : Ready sha256 url cacheDir content first tree
  · obtain ⟨tree', hcall, ⟨bytes, hmoved, -⟩, hno⟩ := runs_of_ready hcache hlinks hurl hfirst nameHint hdigest hready
    have hleft : (download sha256 url cacheDir nameHint expected first tree).2 = tree' := congrArg Prod.snd hcall
    have hcache' : tree'.lookup cacheDir = some .dir := by
      obtain ⟨name, partName, hplaces⟩ := exists_places hcache hurl
      rw [hplaces.destination] at hmoved
      exact tree'.parent name cacheDir (by simp [hmoved])
    have hlinks' : ∀ name target, isPart name = true → tree'.lookup (name :: cacheDir) ≠ some (.link target) :=
      fun name target hname hlink => hlinks name target hname (hno _ _ hlink)
    refine iff_of_true ⟨.inl (hcalls.mpr hready), hkeeps, ?_⟩ (.inl hready)
    rw [hleft]
    exact keepsDestination hcache' hlinks' hurl hsecond nameHint hdigest
  · obtain ⟨e, hcall⟩ := runs_of_not_ready hcache hlinks hurl hfirst nameHint hdigest hready
    have hleft : (download sha256 url cacheDir nameHint expected first tree).2 = afterFailure url cacheDir content tree :=
      congrArg Prod.snd hcall
    constructor
    · intro hrecovers
      have hsucceeds := hrecovers.succeeds
      rw [hleft] at hsucceeds
      exact hsucceeds.imp hcalls.mp hcalls'.mp
    · intro hcondition
      refine ⟨?_, hkeeps, ?_⟩
      · rw [hleft]
        exact hcondition.imp hcalls.mpr hcalls'.mpr
      · rwa [hleft]

/-- In place of a checksum, the bytes themselves in hexadecimal digits. -/
def hexSum (bytes : List UInt8) : String :=
  let digits := bytes.flatMap fun b => [Nat.digitChar (b.toNat / 16), Nat.digitChar (b.toNat % 16)]
  String.ofList ((digits ++ List.replicate 64 '0').take 64)

def modelBytes : List UInt8 := osString "GGUF"

/-- It sends what it is asked for, and refuses a range that begins at the end of the file. -/
def fileServer (content : List UInt8) : Network where
  validateDirectDownloadUrl _ := .ok ()
  validateDirectDownloadResolvesPublic _ := .ok ()
  send _ start :=
    match start with
    | none => .ok ⟨false, [content], none⟩
    | some start =>
      if start < content.length then .ok ⟨true, [content.drop start], none⟩
      else .error "HTTP status client error (416 Range Not Satisfiable)"

theorem fileServer_serves (content : List UInt8) (url : String) : Serves (fileServer content) url content where
  url_ok := rfl
  public_ok := rfl
  whole := ⟨[content], rfl, List.flatten_singleton⟩
  range start := by
    by_cases h : start < content.length
    · exact .inr (.inl ⟨h, [content.drop start], if_pos h, List.flatten_singleton⟩)
    · exact .inr (.inr ⟨Nat.not_lt.mp h, _, if_neg h⟩)

/-- A cache with so much of a model under its `.part` name. -/
def leftover (bytes : List UInt8) : Tree :=
  ((do createDir cache ""; createFile (osString "m.part" :: cache) bytes "" : FsM Unit).run.run .empty).2

def modelUrl : String := "https://models.example/m.gguf"

theorem leftover_no_link (bytes : List UInt8) (path : Path) (target : List OsString) :
    (leftover bytes).lookup path ≠ some (.link target) := by
  have hempty (path : Path) (target : List OsString) : Tree.empty.lookup path ≠ some (.link target) := by
    show (if path = [] then some Entry.dir else none) ≠ _
    split <;> simp
  have hmade : Does (fun _ => True) (do createDir cache ""; createFile (osString "m.part" :: cache) bytes "" : FsM Unit) .empty
      fun _ _ => True := by
    refine (does_createDir rfl fun _ => trivial).bind fun _ mid hmid hdone => ?_
    exact (does_createFile hdone.2 (hmid.no_link (hempty _)) fun _ => trivial).mono (fun _ h => h) fun _ _ _ _ => trivial
  exact hmade.1.no_link (hempty path) target

/-- A download that was interrupted is completed by the next one. -/
theorem recoversInTwo_half : RecoversInTwo hexSum modelUrl cache "m" (hexSum modelBytes) modelBytes (fileServer modelBytes)
    (fileServer modelBytes) (leftover (modelBytes.take 2)) := by
  have hserves := fileServer_serves modelBytes modelUrl
  have hleft : (leftover (modelBytes.take 2)).lookup (partOf modelUrl cache (leftover (modelBytes.take 2))) =
      some (.file (modelBytes.take 2)) := by decide +kernel
  refine (recoversInTwo_iff hexSum (by decide +kernel) (fun name target _ => leftover_no_link _ _ target) (by decide +kernel) hserves hserves
    "m" (by decide +kernel)).mpr (.inl ?_)
  unfold Ready
  rw [hleft]
  exact .inr (.inr (by decide +kernel))

/-- One that was interrupted after the last byte never is. -/
theorem complete_leftover_stays :
    Serves (fileServer modelBytes) modelUrl modelBytes ∧ (leftover modelBytes).lookup (osString "m.part" :: cache) = some (.file modelBytes) ∧
    ¬ RecoversInTwo hexSum modelUrl cache "m" (hexSum modelBytes) modelBytes (fileServer modelBytes) (fileServer modelBytes)
      (leftover modelBytes) := by
  have hfirst : (download hexSum modelUrl cache "m" (hexSum modelBytes) (fileServer modelBytes) (leftover modelBytes)).1.toOption = none := by
    decide +kernel
  have hsecond : (download hexSum modelUrl cache "m" (hexSum modelBytes) (fileServer modelBytes)
      (download hexSum modelUrl cache "m" (hexSum modelBytes) (fileServer modelBytes) (leftover modelBytes)).2).1.toOption = none := by
    decide +kernel
  refine ⟨fileServer_serves _ _, by decide +kernel, fun h => ?_⟩
  rcases h.succeeds with ⟨path, hpath⟩ | ⟨path, hpath⟩
  · rw [hpath] at hfirst
    cases hfirst
  · rw [hpath] at hsecond
    cases hsecond

end Llmctl.Install
