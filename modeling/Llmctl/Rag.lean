import Llmctl.Routing
import Llmctl.Text.Slices
import Mathlib.Data.List.Basic

/-!
# Lexical search

`lexical_search` ranks documents by the terms of a query that their titles and contents
have. `alphanumeric` is `char::is_alphanumeric`; a slice that would panic is none.
-/

namespace Llmctl

structure SearchDocument where
  id : String
  title : Option String
  path : Option String
  content : String
  deriving DecidableEq, Repr

/-- The scores are whole numbers, which `f64` adds exactly. -/
structure SearchHit where
  id : String
  title : Option String
  path : Option String
  score : Nat
  snippet : String
  deriving DecidableEq, Repr

section
variable (alphanumeric : Char → Bool)

def tokenize (text : String) : List String :=
  sortedSet ((((text.toList.splitOnP fun c => !alphanumeric c && c != '_').map fun part => trim (String.ofList part)).filter
    fun term => decide (2 ≤ Text.byteLen term.toList)).map fun term => String.ofList (term.toList.map Char.toLower))

def snippet (content : String) (terms : List String) : Option String := do
  let content := content.toList
  let lower := content.map Char.toLower
  let start := ((terms.filterMap fun term => Text.find term.toList lower).min?).getD 0
  let (before, _) ← Text.sliceAt content start
  let start := ((Text.rfindChar '\n' before).map (· + 1)).getD 0
  let (_, rest) ← Text.sliceAt content start
  let stop := ((Text.find ['\n'] rest).map (start + ·)).getD (Text.byteLen content)
  let line ← Text.slice content start stop
  pure (String.ofList (line.take 240))

/-- The hit of a document, if it has a score at all. -/
def searchHit (queryTerms : List String) (document : SearchDocument) : Option (Option SearchHit) :=
  let contentTerms := tokenize alphanumeric document.content
  let titleTerms := tokenize alphanumeric (document.title.getD "")
  let score := queryTerms.foldl (fun score term =>
    let score := if titleTerms.contains term then score + 3 else score
    if contentTerms.contains term then score + 1 else score) 0
  if score ≤ 0 then pure none
  else do
    let snippet ← snippet document.content queryTerms
    pure (some { id := document.id, title := document.title, path := document.path, score, snippet })

/-- The higher score first, then the smaller id. -/
def SearchHit.Before (left right : SearchHit) : Prop :=
  right.score < left.score ∨ right.score = left.score ∧ left.id ≤ right.id

instance : DecidableRel SearchHit.Before := fun left right =>
  inferInstanceAs (Decidable (right.score < left.score ∨ right.score = left.score ∧ left.id ≤ right.id))

def lexicalSearch (query : String) (documents : List SearchDocument) (limit : Nat) : Option (List SearchHit) :=
  let queryTerms := tokenize alphanumeric query
  if queryTerms.isEmpty || limit == 0 then some []
  else do
    let found ← documents.mapM (searchHit alphanumeric queryTerms)
    let hits := (found.filterMap fun hit => hit).insertionSort SearchHit.Before
    pure (hits.take limit)

end

end Llmctl
