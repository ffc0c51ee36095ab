import Llmctl.Rag
import Mathlib.Data.String.Basic
import Mathlib.Data.List.Sort

/-!
# What a lexical search finds

The first documents by score and id, whatever their order was. A snippet is the start of
a line of the content; it is cut where characters end, for a match in lower case stands at
the same offset as in the content.
-/

namespace Llmctl

/-! ## Snippets -/

/-- A snippet is the beginning of a line. -/
theorem snippet_eq_line (content : String) (terms : List String) :
    ∃ before line after, content.toList = before ++ (line ++ after) ∧ '\n' ∉ line ∧
      (before = [] ∨ before.getLast? = some '\n') ∧ (after = [] ∨ after.head? = some '\n') ∧
      snippet content terms = some (String.ofList (line.take 240)) := by
  unfold snippet
  generalize hstart : ((terms.filterMap fun term => Text.find term.toList (content.toList.map Char.toLower)).min?).getD 0 = start
  -- a match in the copy, or the start of the text
  obtain ⟨head, tail, hcontent, rfl⟩ : ∃ head tail, content.toList = head ++ tail ∧ start = Text.byteLen head := by
    cases hmin : (terms.filterMap fun term => Text.find term.toList (content.toList.map Char.toLower)).min? with
    | none =>
      rw [hmin] at hstart
      exact ⟨[], content.toList, rfl, hstart.symm⟩
    | some n =>
      rw [hmin] at hstart
      obtain ⟨term, -, hterm⟩ := List.mem_filterMap.mp (List.min?_mem hmin)
      obtain rfl : n = start := hstart
      exact Text.find_toLower hterm
  -- the line of the match
  obtain ⟨before, begun, rfl, hbegun, hbefore, hlast⟩ : ∃ before begun, head = before ++ begun ∧ '\n' ∉ begun ∧
      ((Text.rfindChar '\n' head).map (· + 1)).getD 0 = Text.byteLen before ∧ (before = [] ∨ before.getLast? = some '\n') := by
    cases hr : Text.rfindChar '\n' head with
    | none => exact ⟨[], head, rfl, Text.rfindChar_eq_none hr, rfl, Or.inl rfl⟩
    | some n =>
      obtain ⟨before, begun, rfl, hbegun, rfl⟩ := Text.rfindChar_eq_some hr
      exact ⟨before ++ ['\n'], begun, by simp, hbegun, by simp [Text.byteLen]; decide, Or.inr (by simp)⟩
  obtain ⟨rest, after, hrest, hline, hstop, hafter⟩ : ∃ rest after, begun ++ tail = rest ++ after ∧ '\n' ∉ rest ∧
      ((Text.find ['\n'] (begun ++ tail)).map (Text.byteLen before + ·)).getD (Text.byteLen content.toList) =
        Text.byteLen before + Text.byteLen rest ∧ (after = [] ∨ after.head? = some '\n') := by
    cases hf : Text.find ['\n'] (begun ++ tail) with
    | none =>
      refine ⟨begun ++ tail, [], (List.append_nil _).symm, Text.find_eq_none hf, ?_, Or.inl rfl⟩
      rw [hcontent]
      simp
    | some n =>
      obtain ⟨rest, after, hrest, hline, rfl⟩ := Text.findChar_eq_some hf
      exact ⟨rest, '\n' :: after, hrest, hline, rfl, Or.inr rfl⟩
  have hcut : content.toList = before ++ (rest ++ after) := by
    rw [hcontent, List.append_assoc, hrest]
  refine ⟨before, rest, after, hcut, hline, hlast, hafter, ?_⟩
  have hfirst : Text.sliceAt content.toList (Text.byteLen (before ++ begun)) = some (before ++ begun, tail) := by
    rw [hcontent]
    exact Text.sliceAt_append _ _
  have hsecond : Text.sliceAt content.toList (Text.byteLen before) = some (before, begun ++ tail) := by
    rw [hcut, ← hrest]
    exact Text.sliceAt_append _ _
  have hslice : Text.slice content.toList (Text.byteLen before) (Text.byteLen before + Text.byteLen rest) = some rest := by
    rw [hcut]
    exact Text.slice_append _ _ _
  simp only [hstart, hfirst, hbefore, hsecond, hstop, hslice, Option.bind_eq_bind, Option.bind_some]
  rfl

/-! ## Scores -/

section
variable (alphanumeric : Char → Bool)

/-- Three for each query term in the title and one for each in the content. -/
def relevance (query : String) (document : SearchDocument) : Nat :=
  3 * ((tokenize alphanumeric query).filter fun term => decide (term ∈ tokenize alphanumeric (document.title.getD ""))).length +
    ((tokenize alphanumeric query).filter fun term => decide (term ∈ tokenize alphanumeric document.content)).length

theorem foldl_score (titleTerms contentTerms : List String) (terms : List String) (start : Nat) :
    terms.foldl (fun score term =>
        let score := if titleTerms.contains term then score + 3 else score
        if contentTerms.contains term then score + 1 else score) start =
      start + (3 * (terms.filter fun term => decide (term ∈ titleTerms)).length +
        (terms.filter fun term => decide (term ∈ contentTerms)).length) := by
  induction terms generalizing start with
  | nil => rfl
  | cons term terms ih =>
    rw [List.foldl_cons, ih]
    by_cases htitle : term ∈ titleTerms <;> by_cases hcontent : term ∈ contentTerms <;>
      simp [htitle, hcontent] <;> omega

/-- The hit of a document that has a score. -/
def hitOf (query : String) (document : SearchDocument) : SearchHit where
  id := document.id
  title := document.title
  path := document.path
  score := relevance alphanumeric query document
  snippet := (snippet document.content (tokenize alphanumeric query)).getD ""

theorem snippet_isSome (content : String) (terms : List String) : (snippet content terms).isSome := by
  obtain ⟨-, line, -, -, -, -, -, h⟩ := snippet_eq_line content terms
  rw [h]
  rfl

theorem searchHit_eq (query : String) (document : SearchDocument) :
    searchHit alphanumeric (tokenize alphanumeric query) document =
      some (if 0 < relevance alphanumeric query document then some (hitOf alphanumeric query document) else none) := by
  obtain ⟨text, htext⟩ := Option.isSome_iff_exists.mp (snippet_isSome document.content (tokenize alphanumeric query))
  simp only [searchHit, foldl_score, Nat.zero_add]
  change (if relevance alphanumeric query document ≤ 0 then _ else _) = _
  by_cases h : 0 < relevance alphanumeric query document
  · rw [if_neg (Nat.not_le_of_lt h), if_pos h, htext]
    simp [hitOf, htext, relevance]
  · rw [if_pos (Nat.le_of_not_lt h), if_neg h]
    rfl

/-! ## Ranking -/

/-- The order of two documents in the results. -/
def RanksBefore (query : String) (left right : SearchDocument) : Prop :=
  relevance alphanumeric query right < relevance alphanumeric query left ∨
    relevance alphanumeric query right = relevance alphanumeric query left ∧ left.id < right.id

instance : Std.Total SearchHit.Before where
  total left right := by
    unfold SearchHit.Before
    rcases Nat.lt_trichotomy left.score right.score with h | h | h
    · exact Or.inr (Or.inl h)
    · cases le_total left.id right.id with
      | inl hid => exact Or.inl (Or.inr ⟨h.symm, hid⟩)
      | inr hid => exact Or.inr (Or.inr ⟨h, hid⟩)
    · exact Or.inl (Or.inl h)

instance : IsTrans SearchHit SearchHit.Before where
  trans a b c hab hbc := by
    unfold SearchHit.Before at *
    rcases hab with hab | ⟨hab, hid⟩ <;> rcases hbc with hbc | ⟨hbc, hid'⟩
    · exact Or.inl (Nat.lt_trans hbc hab)
    · exact Or.inl (by omega)
    · exact Or.inl (by omega)
    · exact Or.inr ⟨hbc.trans hab, le_trans hid hid'⟩

/-- The order of the results, on the documents: ids may be equal here. -/
def ranks (query : String) (left right : SearchDocument) : Prop :=
  (hitOf alphanumeric query left).Before (hitOf alphanumeric query right)

instance (query : String) : DecidableRel (ranks alphanumeric query) := fun left right =>
  inferInstanceAs (Decidable ((hitOf alphanumeric query left).Before (hitOf alphanumeric query right)))

instance (query : String) : Std.Total (ranks alphanumeric query) where
  total _ _ := Std.Total.total (r := SearchHit.Before) _ _

instance (query : String) : IsTrans SearchDocument (ranks alphanumeric query) where
  trans _ _ _ := IsTrans.trans (r := SearchHit.Before) _ _ _

/-- The documents with a score, in the order of the results. -/
def ranked (query : String) (documents : List SearchDocument) : List SearchDocument :=
  (documents.filter fun document => decide (0 < relevance alphanumeric query document)).insertionSort (ranks alphanumeric query)

theorem lexicalSearch_eq (query : String) (documents : List SearchDocument) (limit : Nat) :
    lexicalSearch alphanumeric query documents limit =
      some (((ranked alphanumeric query documents).take limit).map (hitOf alphanumeric query)) := by
  unfold lexicalSearch
  by_cases hempty : tokenize alphanumeric query = []
  · have hnone : documents.filter (fun document => decide (0 < relevance alphanumeric query document)) = [] := by
      simp [relevance, hempty]
    simp [ranked, hnone, hempty]
  · by_cases hlimit : limit = 0
    · simp [hlimit]
    · have hfound : documents.mapM (searchHit alphanumeric (tokenize alphanumeric query)) =
          some (documents.map fun document =>
            if 0 < relevance alphanumeric query document then some (hitOf alphanumeric query document) else none) := by
        rw [funext fun document => searchHit_eq alphanumeric query document]
        exact List.mapM_pure
      have hhits : (documents.map fun document =>
            if 0 < relevance alphanumeric query document then some (hitOf alphanumeric query document) else none).filterMap
              (fun hit => hit) =
          (documents.filter fun document => decide (0 < relevance alphanumeric query document)).map (hitOf alphanumeric query) := by
        rw [List.filterMap_map, ← List.filterMap_eq_map, ← List.filterMap_eq_filter, List.filterMap_filterMap]
        refine List.filterMap_congr fun document _ => ?_
        by_cases h : 0 < relevance alphanumeric query document <;> simp [h, Option.guard]
      have hguard : ((tokenize alphanumeric query).isEmpty || limit == 0) = false := by simp [hempty, hlimit]
      simp only [hguard, Bool.false_eq_true, if_false, hfound, Option.bind_eq_bind, Option.bind_some, hhits]
      rw [← List.map_insertionSort (r := ranks alphanumeric query) (s := SearchHit.Before) _ _ fun _ _ _ _ => Iff.rfl, ← List.map_take]
      rfl

section
variable {documents documents' : List SearchDocument} (hids : (documents.map (·.id)).Nodup) (query : String)
include hids

theorem eq_of_ranks {left right : SearchDocument} (hleft : left ∈ documents) (hright : right ∈ documents)
    (h : ranks alphanumeric query left right) (h' : ranks alphanumeric query right left) : left = right := by
  refine List.inj_on_of_nodup_map hids hleft hright ?_
  simp only [ranks, SearchHit.Before, hitOf] at h h'
  rcases h with h | ⟨h, hle⟩ <;> rcases h' with h' | ⟨h', hle'⟩
  · omega
  · omega
  · omega
  · exact le_antisymm hle hle'

theorem ranked_pairwise : (ranked alphanumeric query documents).Pairwise (RanksBefore alphanumeric query) := by
  have hsorted : (ranked alphanumeric query documents).Pairwise (ranks alphanumeric query) := List.pairwise_insertionSort _ _
  have hperm : (ranked alphanumeric query documents).Perm _ := List.perm_insertionSort _ _
  have hdistinct : (ranked alphanumeric query documents).Pairwise fun left right => left.id ≠ right.id := by
    rw [← List.pairwise_map (f := fun document : SearchDocument => document.id)]
    exact ((hperm.map _).nodup_iff).mpr (hids.sublist (List.filter_sublist.map _))
  refine (hsorted.and hdistinct).imp ?_
  rintro left right ⟨h, hne⟩
  rcases h with h | ⟨hscore, hle⟩
  · exact Or.inl h
  · exact Or.inr ⟨hscore, lt_of_le_of_ne hle hne⟩

theorem ranked_perm (h : documents'.Perm documents) :
    ranked alphanumeric query documents' = ranked alphanumeric query documents := by
  have hfilter := h.filter fun document => decide (0 < relevance alphanumeric query document)
  refine List.Perm.eq_of_pairwise (fun left right hleft hright => ?_) (List.pairwise_insertionSort _ _)
    (List.pairwise_insertionSort _ _) ((List.perm_insertionSort _ _).trans (hfilter.trans (List.perm_insertionSort _ _).symm))
  refine eq_of_ranks alphanumeric hids query ?_ ?_
  · exact h.mem_iff.mp (List.mem_of_mem_filter ((List.mem_insertionSort _).mp hleft))
  · exact List.mem_of_mem_filter ((List.mem_insertionSort _).mp hright)

end

end

def runbook : SearchDocument where
  id := "ops"
  title := some "Runbook"
  path := none
  content := "start\nRestart the workers\nend"

end Llmctl
