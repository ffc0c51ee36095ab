import Llmctl.Native.DeltaSound

/-!
# What a generation feeds and counts

The forward calls of a generation against the tokens of its prompt and the tokens that it
samples: each call feeds what has not been fed yet, and the last token is sampled only to be
returned.
-/

namespace Llmctl.Native

open Async

/-- The prompt's tokens, the forward calls with their offsets, and the sampled tokens. -/
structure Ledger where
  prompt : List Nat := []
  fed : List (List Nat × Nat) := []
  sampled : List Nat := []
  deriving DecidableEq

def Ledger.tokens (l : Ledger) : List Nat := l.fed.flatMap (·.1)

section
variable {T κ ρ : Type} (d : RealCandleDecoder T κ ρ) (decodes : List Nat → String → Prop)
  [∀ tokens text, Decidable (decodes tokens text)]

namespace DecoderOp

/-- Tokens are decoded to a text that they may have; all else may be answered in any way. -/
def canLedger : (o : DecoderOp T ρ) → (DecoderSig T ρ d.model.Cache).Ans o → Bool
  | .decode tokens, .ok (text : String) => decide (decodes tokens text)
  | _, _ => true

def ledger : (o : DecoderOp T ρ) → (DecoderSig T ρ d.model.Cache).Ans o → Ledger → Ledger
  | .encode _, .ok (ids : List Nat), l => { l with prompt := prependBosIfConfigured ids d.bosTokenId }
  | .nextTokenLogits inputIds offset, _, l => { l with fed := l.fed ++ [(inputIds, offset)] }
  | .sample _ _, .ok (next, _), l => { l with sampled := l.sampled ++ [next] }
  | _, _, l => l

end DecoderOp

def ledgerWorld : World (DecoderSig T ρ d.model.Cache) Unit Ledger Unit Empty where
  can _ o a _ _ := o.canLedger d decodes a
  loc _ o a l := o.ledger d a l
  sh _ _ _ _ g := g
  canDrop _ _ := false
  dropLoc _ _ l := l
  dropSh _ _ _ g := g
  canEnv e _ := e.elim
  env e _ := e.elim

abbrev LedgerConf := Conf (DecoderSig T ρ d.model.Cache) (Result NativeGeneration) Unit Ledger Unit

def ledgerStart (request : NativeChatRequest) : LedgerConf d where
  prog _ := some (generateStreaming d request)
  loc _ := {}
  sh := ()

/-! ## Calls -/

/-- Nothing is sampled after the end of the sequence. -/
def EosLast (l : Ledger) : Prop :=
  ∀ before token after, l.sampled = before ++ token :: after → isEosToken d.tokenizer token = true → after = []

/-- A call feeds what was not fed before, at the offset of what was. -/
def Feeds (l : Ledger) (inputIds : List Nat) (offset : Nat) : Prop :=
  offset = l.tokens.length ∧ l.tokens ++ inputIds = l.prompt ++ l.sampled

def Calls : DecoderOp T ρ → Ledger → Prop
  | .nextTokenLogits inputIds offset, l => EosLast d l ∧ Feeds l inputIds offset
  | _, l => EosLast d l

/-- A result with `Q` where it is one. -/
def Settles {α : Type} (Q : α → Ledger → Prop) (r : Result α) (l : Ledger) : Prop := EosLast d l ∧ ∀ a, r = .ok a → Q a l

variable (stop : List String)

/-- Before a step, which feeds `stepInput`. -/
structure Ready (st : Generating ρ) (l : Ledger) (stepInput : List Nat) : Prop where
  feeds : Feeds l stepInput st.offset
  inputIds : st.inputIds = l.prompt ++ l.sampled
  generated : st.generated = l.sampled
  running : ∀ token ∈ l.sampled, isEosToken d.tokenizer token = false

/-- After a step. -/
structure Stepped (st : Generating ρ) (l : Ledger) : Prop where
  last : ∃ sampled next, l.sampled = sampled ++ [next] ∧ l.tokens = l.prompt ++ sampled
  offset : st.offset = l.tokens.length
  inputIds : st.inputIds = l.prompt ++ l.sampled
  generated : st.generated = l.sampled.filter fun token => !isEosToken d.tokenizer token
  running : st.stopped = false → (∀ token ∈ l.sampled, isEosToken d.tokenizer token = false) ∧
    ∃ text, decodes st.generated text ∧ findStop stop text = none
  stopped : st.stopped = true → (∃ token ∈ l.sampled, isEosToken d.tokenizer token = true) ∨
    ∃ text, decodes st.generated text ∧ (findStop stop text).isSome = true

variable {d decodes stop} {l : Ledger}

theorem eosLast_of_running (h : ∀ token ∈ l.sampled, isEosToken d.tokenizer token = false) : EosLast d l := by
  intro before token after hsampled heos
  have hrunning := h token (by rw [hsampled]; simp)
  rw [heos] at hrunning
  cases hrunning

theorem EosLast.snoc {sampled : List Nat} {next : Nat} (h : ∀ token ∈ sampled, isEosToken d.tokenizer token = false)
    (hl : l.sampled = sampled ++ [next]) : EosLast d l := by
  intro before token after hsampled heos
  rcases List.eq_nil_or_concat after with rfl | ⟨after, last, rfl⟩
  · rfl
  · rw [hl, List.concat_eq_append, ← List.cons_append, ← List.append_assoc] at hsampled
    have hmem : token ∈ sampled := by rw [(List.append_inj' hsampled rfl).1]; simp
    have hrunning := h token hmem
    rw [heos] at hrunning
    cases hrunning

theorem settles_andThen {α β ε : Type} {p : DecoderProg d (Except ε α)} {f : α → DecoderProg d (Result β)}
    {err : ε → String} {Q : β → Ledger → Prop}
    (h : Always (ledgerWorld d decodes) () (Calls d)
      (fun r l => EosLast d l ∧ ∀ a, r = .ok a → Always (ledgerWorld d decodes) () (Calls d) (Settles d Q) (f a) l) p l) :
    Always (ledgerWorld d decodes) () (Calls d) (Settles d Q) (andThen p f err) l := by
  refine h.seq fun r l' hr => ?_
  cases r with
  | error e => exact ⟨hr.1, nofun⟩
  | ok a => exact hr.2 a rfl

/-! ## Steps -/

theorem flushDelta_settles (generated : List Nat) (emittedChars : Nat) (h : EosLast d l) :
    Always (ledgerWorld d decodes) () (Calls d)
      (fun r l' => l' = l ∧ ∀ a, r = .ok a → ∃ text, decodes generated text ∧ a.1 = (findStop stop text).isSome)
      (flushDelta d stop generated emittedChars) l := by
  refine Always.op h fun answer _ hc => ?_
  cases answer with
  | error e => exact ⟨rfl, nofun⟩
  | ok text =>
    have htext : decodes generated text := of_decide_eq_true hc
    simp only
    split
    · refine Always.op h fun _ _ _ => ⟨rfl, ?_⟩
      rintro a ha
      cases ha
      exact ⟨text, htext, rfl⟩
    · refine ⟨rfl, ?_⟩
      rintro a ha
      cases ha
      exact ⟨text, htext, rfl⟩

omit [∀ tokens text, Decidable (decodes tokens text)] in
/-- What a step leaves, by the token that it samples. -/
theorem Ready.stepped {st st' : Generating ρ} {stepInput : List Nat} {next : Nat} (h : Ready d st l stepInput)
    (hoffset : st'.offset = st.offset + stepInput.length) (hids : st'.inputIds = st.inputIds ++ [next])
    (hgenerated : st'.generated = st.generated ++ if isEosToken d.tokenizer next then [] else [next])
    (hrunning : st'.stopped = false → isEosToken d.tokenizer next = false ∧
      ∃ text, decodes st'.generated text ∧ findStop stop text = none)
    (hstopped : st'.stopped = true → isEosToken d.tokenizer next = true ∨
      ∃ text, decodes st'.generated text ∧ (findStop stop text).isSome = true) :
    Stepped d decodes stop st' { l with fed := l.fed ++ [(stepInput, st.offset)], sampled := l.sampled ++ [next] } := by
  obtain ⟨hat, hfeeds⟩ := h.feeds
  have htokens : ∀ sampled, ({ l with fed := l.fed ++ [(stepInput, st.offset)], sampled } : Ledger).tokens =
      l.tokens ++ stepInput := by
    simp [Ledger.tokens]
  have hfilter : (l.sampled.filter fun token => !isEosToken d.tokenizer token) = l.sampled :=
    List.filter_eq_self.mpr fun token hmem => by rw [h.running token hmem, Bool.not_false]
  refine ⟨⟨l.sampled, next, rfl, ?_⟩, ?_, ?_, ?_, fun hst => ?_, fun hst => ?_⟩
  · rw [htokens, hfeeds]
  · rw [htokens, hoffset, hat, List.length_append]
  · rw [hids, h.inputIds, List.append_assoc]
  · rw [hgenerated, h.generated, List.filter_append, hfilter]
    cases heos : isEosToken d.tokenizer next <;> simp [heos]
  · refine ⟨fun token hmem => ?_, (hrunning hst).2⟩
    rcases List.mem_append.mp hmem with hmem | hmem
    · exact h.running token hmem
    · rw [List.mem_singleton.mp hmem]
      exact (hrunning hst).1
  · exact (hstopped hst).imp_left fun heos => ⟨next, List.mem_append_right _ (List.mem_singleton.mpr rfl), heos⟩

theorem decodeStep_settles {st : Generating ρ} {stepInput : List Nat} (h : Ready d st l stepInput) :
    Always (ledgerWorld d decodes) () (Calls d)
      (Settles d fun st' l' => l'.prompt = l.prompt ∧ l'.sampled.length = l.sampled.length + 1 ∧ Stepped d decodes stop st' l')
      (decodeStep d stop st stepInput) l := by
  have hlast : EosLast d l := eosLast_of_running h.running
  refine settles_andThen (Always.op ⟨hlast, h.feeds⟩ fun _ _ _ => ⟨hlast, fun logits _ => ?_⟩)
  refine settles_andThen (Always.op hlast fun answer _ _ => ?_)
  cases answer with
  | error e => exact ⟨hlast, nofun⟩
  | ok sampled =>
    obtain ⟨next, sampler⟩ := sampled
    have hsnoc : EosLast d { l with fed := l.fed ++ [(stepInput, st.offset)], sampled := l.sampled ++ [next] } :=
      EosLast.snoc h.running rfl
    refine ⟨hsnoc, ?_⟩
    rintro _ hsampled
    cases hsampled
    dsimp only
    by_cases heos : isEosToken d.tokenizer next = true
    · rw [if_pos heos]
      refine ⟨hsnoc, ?_⟩
      rintro st' hst'
      cases hst'
      refine ⟨rfl, List.length_append, h.stepped rfl rfl ?_ nofun fun _ => .inl heos⟩
      rw [if_pos heos, List.append_nil]
    · rw [if_neg heos]
      refine settles_andThen ((flushDelta_settles (st.generated ++ [next]) st.emittedChars hsnoc).mono (fun _ _ h => h) ?_)
      rintro r l' ⟨rfl, hr⟩
      refine ⟨hsnoc, ?_⟩
      rintro ⟨hit, emitted⟩ ha
      obtain ⟨text, htext, hhit⟩ := hr _ ha
      refine ⟨hsnoc, ?_⟩
      rintro st' hst'
      cases hst'
      refine ⟨rfl, List.length_append, h.stepped rfl rfl ?_ (fun hst => ?_) fun hst => .inr ⟨text, htext, hhit.symm.trans hst⟩⟩
      · rw [if_neg heos]
      · have hmiss : hit = false := hst
        refine ⟨by simpa using heos, text, htext, Option.not_isSome_iff_eq_none.mp ?_⟩
        rw [← hhit, hmiss]
        exact Bool.false_ne_true

omit [∀ tokens text, Decidable (decodes tokens text)] in
/-- A generation that goes on feeds the last token next. -/
theorem Stepped.ready {st : Generating ρ} (h : Stepped d decodes stop st l) (hst : st.stopped = false) :
    Ready d st l [st.inputIds.getLastD 0] := by
  obtain ⟨sampled, next, hsampled, htokens⟩ := h.last
  have hrunning := (h.running hst).1
  refine ⟨⟨h.offset, ?_⟩, h.inputIds, ?_, hrunning⟩
  · rw [h.inputIds, hsampled, ← List.append_assoc, List.getLastD_concat, htokens]
  · rw [h.generated]
    exact List.filter_eq_self.mpr fun token hmem => by rw [hrunning token hmem, Bool.not_false]

theorem generateLoop_settles : ∀ (steps : Nat) {st : Generating ρ} {l : Ledger}, EosLast d l → Stepped d decodes stop st l →
    Always (ledgerWorld d decodes) () (Calls d)
      (Settles d fun st' l' => l'.prompt = l.prompt ∧ l'.sampled.length ≤ l.sampled.length + steps ∧
        Stepped d decodes stop st' l' ∧ (st'.stopped = false → l'.sampled.length = l.sampled.length + steps))
      (generateLoop d stop steps st) l
  | 0, st, l, hlast, h => by
    refine ⟨hlast, ?_⟩
    rintro st' hst'
    cases hst'
    exact ⟨rfl, Nat.le_refl _, h, fun _ => rfl⟩
  | steps + 1, st, l, hlast, h => by
    unfold generateLoop
    split
    · rename_i hst
      refine ⟨hlast, ?_⟩
      rintro st' hst'
      cases hst'
      exact ⟨rfl, Nat.le_add_right _ _, h, fun hrunning => absurd hst (by simp [hrunning])⟩
    · rename_i hst
      have hready := h.ready (by simpa using hst)
      refine settles_andThen ((decodeStep_settles hready).mono (fun _ _ h => h) ?_)
      rintro r l₁ ⟨hlast₁, hr⟩
      refine ⟨hlast₁, fun st₁ hst₁ => ?_⟩
      obtain ⟨hprompt, hlength, hstepped⟩ := hr st₁ hst₁
      refine (generateLoop_settles steps hlast₁ hstepped).mono (fun _ _ h => h) ?_
      rintro r₂ l₂ ⟨hlast₂, hr₂⟩
      refine ⟨hlast₂, fun st₂ hst₂ => ?_⟩
      obtain ⟨hprompt₂, hle, hstepped₂, hfull⟩ := hr₂ st₂ hst₂
      refine ⟨hprompt₂.trans hprompt, by omega, hstepped₂, fun hrunning => ?_⟩
      have := hfull hrunning
      omega

/-! ## A whole generation -/

variable (d decodes) in
/-- What a generation that returns has fed and counted. -/
structure Accounted (request : NativeChatRequest) (gen : NativeGeneration) (l : Ledger) : Prop where
  fed : ∃ sampled next, l.sampled = sampled ++ [next] ∧ l.tokens = l.prompt ++ sampled
  promptTokens : gen.promptTokens = l.prompt.length
  completionTokens : gen.completionTokens = (l.sampled.filter fun token => !isEosToken d.tokenizer token).length
  bounded : l.sampled.length ≤ maxTokens request
  text : ∃ text, decodes (l.sampled.filter fun token => !isEosToken d.tokenizer token) text ∧
    gen.text = String.ofList (visibleText (request.stop.getD []) text)
  running : gen.finishReason = "length" → l.sampled.length = maxTokens request ∧
    (∀ token ∈ l.sampled, isEosToken d.tokenizer token = false) ∧
    ∃ text, decodes l.sampled text ∧ findStop (request.stop.getD []) text = none
  stopped : gen.finishReason ≠ "length" → (∃ token ∈ l.sampled, isEosToken d.tokenizer token = true) ∨
    ∃ text, decodes (l.sampled.filter fun token => !isEosToken d.tokenizer token) text ∧
      (findStop (request.stop.getD []) text).isSome = true

theorem maxTokens_pos (request : NativeChatRequest) : 1 ≤ maxTokens request := Nat.le_max_left _ _

theorem generateFrom_settles (request : NativeChatRequest) (prompt : List Nat) :
    Always (ledgerWorld d decodes) () (Calls d) (Settles d (Accounted d decodes request)) (generateFrom d request prompt)
      { prompt } := by
  have hready : ∀ sampler, Ready d ⟨sampler, prompt, [], 0, 0, false⟩ { prompt } prompt := fun sampler =>
    ⟨⟨rfl, by simp [Ledger.tokens]⟩, by simp, rfl, by simp⟩
  refine settles_andThen ((decodeStep_settles (hready _)).mono (fun _ _ h => h) ?_)
  rintro r l₁ ⟨hlast₁, hr⟩
  refine ⟨hlast₁, fun st₁ hst₁ => ?_⟩
  obtain ⟨hprompt₁, hlength₁, hstepped₁⟩ := hr st₁ hst₁
  refine settles_andThen ((generateLoop_settles _ hlast₁ hstepped₁).mono (fun _ _ h => h) ?_)
  rintro r₂ l₂ ⟨hlast₂, hr₂⟩
  refine ⟨hlast₂, fun st₂ hst₂ => ?_⟩
  obtain ⟨hprompt₂, hle, hstepped₂, hfull⟩ := hr₂ st₂ hst₂
  refine settles_andThen (Always.op hlast₂ fun answer _ hc => ⟨hlast₂, fun text htext => ⟨hlast₂, ?_⟩⟩)
  subst htext
  have hdecodes : decodes st₂.generated text := of_decide_eq_true hc
  have hpos := maxTokens_pos request
  rw [List.length_nil, Nat.zero_add] at hlength₁
  rintro gen hgen
  cases hgen
  show Accounted d decodes request _ l₂
  refine ⟨hstepped₂.last, (congrArg List.length (hprompt₂.trans hprompt₁)).symm, congrArg List.length hstepped₂.generated, by omega,
    ⟨text, hstepped₂.generated ▸ hdecodes, rfl⟩, fun hreason => ?_, fun hreason => ?_⟩
  · have hst : st₂.stopped = false := by
      by_contra hne
      simp [hne] at hreason
    obtain ⟨hrunning, text, htext, hstop⟩ := hstepped₂.running hst
    refine ⟨by have := hfull hst; omega, hrunning, text, ?_, hstop⟩
    rwa [hstepped₂.generated, List.filter_eq_self.mpr fun token hmem => by rw [hrunning token hmem, Bool.not_false]] at htext
  · have hst : st₂.stopped = true := by
      by_contra hne
      simp [hne] at hreason
    rw [← hstepped₂.generated]
    exact hstepped₂.stopped hst

theorem generateStreaming_settles (request : NativeChatRequest) :
    Always (ledgerWorld d decodes) () (Calls d) (Settles d (Accounted d decodes request)) (generateStreaming d request) {} := by
  have hnew : EosLast d {} := eosLast_of_running nofun
  refine Always.op hnew fun sound _ _ => ?_
  cases sound with
  | false => exact ⟨hnew, nofun⟩
  | true =>
    have hlocked : Always (ledgerWorld d decodes) () (Calls d) (Settles d (Accounted d decodes request))
        (generateLocked d request) {} := by
      refine Always.op hnew fun reset _ _ => settles_andThen (Always.op hnew fun served _ _ => ?_)
      split
      · exact ⟨hnew, nofun⟩
      · refine ⟨hnew, fun _ _ => settles_andThen (Always.op hnew fun ids _ _ => ?_)⟩
        cases ids with
        | error e => exact ⟨hnew, nofun⟩
        | ok ids =>
          have hprompt : EosLast d { prompt := prependBosIfConfigured ids d.bosTokenId } := eosLast_of_running nofun
          refine ⟨hprompt, ?_⟩
          rintro _ hids
          cases hids
          dsimp only
          split
          · exact ⟨hprompt, nofun⟩
          · exact generateFrom_settles request _
    exact hlocked.seq fun r l hr => Always.op hr.1 fun _ _ _ => hr

variable (d decodes) in
theorem typed_ledger (request : NativeChatRequest) :
    Typed (ledgerWorld d decodes) (fun _ => Calls d) (fun _ => Settles d (Accounted d decodes request))
      (ledgerStart d request) := by
  intro i p hp
  cases hp
  exact generateStreaming_settles request

/-! ## Stop sequences -/

/-- Text that ends where a stop sequence begins does not contain it. -/
theorem findText_take {needle : List Char} (hne : needle ≠ []) : ∀ {text : List Char} {idx : Nat},
    (∀ j, findText needle text = some j → idx ≤ j) → findText needle (text.take idx) = none
  | [], idx, _ => by
    rw [List.take_nil, findText, if_neg (by simpa using hne)]
  | c :: cs, 0, _ => by
    rw [List.take_zero, findText, if_neg (by simpa using hne)]
  | c :: cs, idx + 1, h => by
    have hprefix : ¬ needle.isPrefixOf (c :: cs) = true := by
      intro hpre
      have := h 0 (by rw [findText, if_pos hpre])
      omega
    have hshort : ¬ needle.isPrefixOf (c :: cs.take idx) = true := by
      intro hpre
      refine hprefix (List.isPrefixOf_iff_prefix.mpr ((List.isPrefixOf_iff_prefix.mp hpre).trans ?_))
      exact List.cons_prefix_cons.mpr ⟨rfl, List.take_prefix idx cs⟩
    rw [List.take_succ_cons, findText, if_neg hshort, findText_take hne fun j hj => ?_]
    · rfl
    · have := h (j + 1) (by rw [findText, if_neg hprefix, hj]; rfl)
      omega

theorem findText_visible (stop : List String) (text : String) {needle : String} (hmem : needle ∈ stop) (hne : needle ≠ "") :
    findText needle.toList (visibleText stop text) = none := by
  have hne : needle.toList ≠ [] := fun h => hne (String.toList_eq_nil_iff.mp h)
  have hfound : ∀ j, findText needle.toList text.toList = some j →
      j ∈ stop.filterMap fun needle => findText needle.toList text.toList := fun j hj =>
    List.mem_filterMap.mpr ⟨needle, hmem, hj⟩
  unfold visibleText
  cases hstop : findStop stop text with
  | none =>
    have hnil : (stop.filterMap fun needle => findText needle.toList text.toList) = [] := List.min?_eq_none_iff.mp hstop
    cases h : findText needle.toList text.toList with
    | none => rfl
    | some j =>
      have hj := hfound j h
      rw [hnil] at hj
      cases hj
  | some idx =>
    refine findText_take hne fun j hj => ?_
    exact (List.min?_eq_some_iff.mp hstop).2 j (hfound j hj)

end

/-- What is fed and counted in a generation: all tokens are fed in their order but the last
one that is sampled. -/
theorem generation_accounted {T κ ρ : Type} (d : RealCandleDecoder T κ ρ) (piece : Nat → String) (request : NativeChatRequest)
    {c : LedgerConf d}
    (hr : Reach (ledgerWorld d fun tokens text => text = textOf piece tokens) (fun _ _ => True) (ledgerStart d request) c) :
    (∀ inputIds offset, c.pending () = some (.nextTokenLogits inputIds offset) → Feeds (c.loc ()) inputIds offset) ∧
      ∀ gen, c.result () = some (.ok gen) →
        (c.loc ()).tokens = (c.loc ()).prompt ++ (c.loc ()).sampled.dropLast ∧
        gen.promptTokens = (c.loc ()).prompt.length ∧
        gen.completionTokens = ((c.loc ()).sampled.filter fun token => !isEosToken d.tokenizer token).length ∧
        gen.completionTokens ≤ maxTokens request ∧
        (gen.finishReason = "length" ↔ gen.completionTokens = maxTokens request ∧
          (∀ token ∈ (c.loc ()).sampled, isEosToken d.tokenizer token = false) ∧
          findStop (request.stop.getD []) (textOf piece (c.loc ()).sampled) = none) ∧
        ∀ needle ∈ request.stop.getD [], needle ≠ "" → findText needle.toList gen.text.toList = none := by
  have htyped := (typed_ledger d (fun tokens text => text = textOf piece tokens) request).reach hr
  constructor
  · intro inputIds offset hpending
    unfold Conf.pending at hpending
    split at hpending
    · rename_i o k hp
      obtain rfl := Option.some.inj hpending
      exact (htyped () _ hp).1.2
    · cases hpending
  · intro gen hgen
    have h := (htyped () _ (Conf.prog_of_result hgen)).2 gen rfl
    obtain ⟨sampled, next, hsampled, htokens⟩ := h.fed
    obtain ⟨text, htext, hvisible⟩ := h.text
    have hfilter : (∀ token ∈ (c.loc ()).sampled, isEosToken d.tokenizer token = false) →
        ((c.loc ()).sampled.filter fun token => !isEosToken d.tokenizer token) = (c.loc ()).sampled := fun hrunning =>
      List.filter_eq_self.mpr fun token hmem => by rw [hrunning token hmem, Bool.not_false]
    refine ⟨?_, h.promptTokens, h.completionTokens, ?_, ⟨fun hreason => ?_, ?_⟩, fun needle hmem hne => ?_⟩
    · rw [htokens, hsampled, List.dropLast_concat]
    · exact h.completionTokens ▸ (List.length_filter_le _ _).trans h.bounded
    · obtain ⟨hlength, hrunning, full, hfull, hstop⟩ := h.running hreason
      exact ⟨by rw [h.completionTokens, hfilter hrunning, hlength], hrunning, hfull ▸ hstop⟩
    · rintro ⟨-, hrunning, hstop⟩
      by_contra hreason
      rcases h.stopped hreason with ⟨token, hmem, heos⟩ | ⟨full, hfull, hhit⟩
      · rw [hrunning token hmem] at heos
        cases heos
      · rw [hfilter hrunning] at hfull
        rw [hfull, hstop] at hhit
        cases hhit
    · rw [hvisible, String.toList_ofList]
      exact findText_visible _ _ hmem hne

/-- A stop sequence ends the generation at its second token. -/
theorem generation_accounted_stop : ∃ c : LedgerConf echoDecoder,
    c.result () = some (.ok ⟨"x", 1, 2, "stop"⟩) ∧ (c.loc ()).tokens = (c.loc ()).prompt ++ (c.loc ()).sampled.dropLast := by
  have hrun : ∃ c : LedgerConf echoDecoder,
      Reach (ledgerWorld echoDecoder fun tokens text => text = textOf (cutAt true) tokens) (fun _ _ => True)
          (ledgerStart echoDecoder stopAtAb) c ∧
        c.result () = some (.ok ⟨"x", 1, 2, "stop"⟩) :=
    Conf.exists_reach (List.replicate 8 (answerDecode (cutAt true) 1) ++ List.replicate 5 (answerDecode (cutAt true) 2))
      (by decide)
  obtain ⟨c, hr, hgen⟩ := hrun
  exact ⟨c, hgen, ((generation_accounted echoDecoder (cutAt true) stopAtAb hr).2 _ hgen).1⟩

/-- The last token that is sampled is not fed. -/
theorem last_token_not_fed : ∃ c : LedgerConf echoDecoder,
    Reach (ledgerWorld echoDecoder fun tokens text => text = textOf (cutAt true) tokens) (fun _ _ => True)
        (ledgerStart echoDecoder stopAtAb) c ∧
      c.result () = some (.ok ⟨"x", 1, 2, "stop"⟩) ∧ (c.loc ()).tokens ≠ (c.loc ()).prompt ++ (c.loc ()).sampled :=
  Conf.exists_reach (List.replicate 8 (answerDecode (cutAt true) 1) ++ List.replicate 5 (answerDecode (cutAt true) 2))
    (by decide)

/-! ## The end of the assistant's turn -/

/-- The marker that closes a turn in the template of a family. -/
def turnMarker : CandleModelFamily → Option String
  | .qwen3 | .qwen3Moe => some "<|im_end|>"
  | .gemma4 => some "<turn|>"
  | .mistral => some "</s>"
  | _ => none

/-- The text of an assistant's turn is followed by the marker. -/
theorem turnMarker_closes {family : CandleModelFamily} {marker : String} (h : turnMarker family = some marker)
    (message : NativeChatMessage) (hrole : message.role = "assistant") :
    ∃ opening text rest, formatNativeChatPrompt family [message] = opening ++ text ++ marker ++ rest ∧
      (text = messageContentText message ∨ text = trim (messageContentText message)) := by
  cases family with
  | qwen3 | qwen3Moe =>
    cases h
    exact ⟨"<|im_start|>assistant\n", messageContentText message, "\n<|im_start|>assistant\n",
      by simp [← String.toList_inj, formatNativeChatPrompt, hrole, chatMlRole, String.join], .inl rfl⟩
  | gemma4 =>
    cases h
    exact ⟨"<|turn>model\n", trim (messageContentText message), "\n<|turn>model\n<|channel>thought\n<channel|>",
      by simp [← String.toList_inj, formatNativeChatPrompt, gemmaChatInput, hrole, gemmaRole, String.join], .inr rfl⟩
  | mistral =>
    cases h
    exact ⟨"<s> ", messageContentText message, "",
      by simp [← String.toList_inj, formatNativeChatPrompt, mistralTurn, hrole, String.join], .inl rfl⟩
  | _ => cases h

section
variable {T κ ρ : Type} (d : RealCandleDecoder T κ ρ)

/-- Nothing is sampled after the marker. -/
def EndsTurn (marker : String) (l : Ledger) : Prop :=
  ∀ before token after, l.sampled = before ++ token :: after → d.tokenizer.idToToken token = some marker → after = []

variable {d}

theorem eosLast_reach {request : NativeChatRequest} {c : LedgerConf d}
    (hr : Reach (ledgerWorld d fun _ _ => True) (fun _ _ => True) (ledgerStart d request) c) : EosLast d (c.loc ()) := by
  have htyped := typed_ledger d (fun _ _ => True) request
  cases hp : c.prog () with
  | none =>
    exact htyped.dropped (D := fun _ => EosLast d) (fun _ h => by cases h) (fun _ _ _ _ _ h => by cases h) hr hp
  | some p =>
    have h := htyped.reach hr () p hp
    cases p with
    | done r => exact h.1
    | call o k =>
      cases o with
      | nextTokenLogits inputIds offset => exact h.1.1
      | _ => exact h.1

/-- The answers of a run that samples one token again and again. -/
def repeatToken (logits : T) (token : Nat) : (o : DecoderOp T ρ) → Ledger × Unit → (DecoderSig T ρ d.model.Cache).Ans o
  | .lock, _ => true
  | .swapServed, _ => false
  | .unlock, _ | .onToken _, _ => ()
  | .resetKvCache, _ => .cleared
  | .encode _, _ => .ok [token]
  | .nextTokenLogits .., _ => .ok logits
  | .sample state _, _ => .ok (token, state)
  | .decode _, _ => .ok ""

def twoTokens : NativeChatRequest := { messages := [], maxTokens := some 2 }

/-- A token that is no end of the sequence is sampled again. -/
theorem repeated_reach (logits : T) {token : Nat} (heos : isEosToken d.tokenizer token = false) :
    ∃ c : LedgerConf d, Reach (ledgerWorld d fun _ _ => True) (fun _ _ => True) (ledgerStart d twoTokens) c ∧
      (c.loc ()).sampled = [token, token] := by
  have hreach := reach_eval (W := ledgerWorld d fun _ _ => True) (repeatToken (d := d) logits token)
    (fun o _ _ => by cases o <;> rfl) (generateStreaming d twoTokens) {} ()
  refine ⟨_, hreach, ?_⟩
  have hprompt : prependBosIfConfigured [token] d.bosTokenId ≠ [] := by
    unfold prependBosIfConfigured
    repeat' split
    all_goals simp
  have hstop : findStop [] "" = none := rfl
  have hvisible : visibleText [] "" = [] := rfl
  simp [generateStreaming, generateLocked, admitFreshKvSession, generateSession, generateFrom, decodeStep, generateLoop, flushDelta,
    andThen, repeatToken, heos, twoTokens, maxTokens, ledgerWorld, DecoderOp.ledger, Prog.op, hprompt, hstop, hvisible]

theorem isEosToken_iff {token : Nat} {marker : String} (htoken : d.tokenizer.idToToken token = some marker) :
    isEosToken d.tokenizer token = true ↔ marker ∈ ["</s>", "<|endoftext|>", "<end_of_turn>", "<turn|>", "<eos>"] := by
  rw [isEosToken, htoken]
  exact List.contains_iff_mem

/-- Generations end with the assistant's turn where the template's marker is an end of the
sequence: not for the ChatML of Qwen. -/
theorem turn_ends_iff (d : RealCandleDecoder T κ ρ) (logits : T) {marker : String} (hmarker : turnMarker d.family = some marker)
    {token : Nat} (htoken : d.tokenizer.idToToken token = some marker) :
    (∀ request (c : LedgerConf d), Reach (ledgerWorld d fun _ _ => True) (fun _ _ => True) (ledgerStart d request) c →
        EndsTurn d marker (c.loc ())) ↔
      d.family = .gemma4 ∨ d.family = .mistral := by
  have hfamily : marker ∈ ["</s>", "<|endoftext|>", "<end_of_turn>", "<turn|>", "<eos>"] ↔
      d.family = .gemma4 ∨ d.family = .mistral := by
    cases hf : d.family <;> rw [hf] at hmarker <;> cases hmarker <;> decide
  rw [← hfamily, ← isEosToken_iff htoken]
  constructor
  · intro h
    by_contra heos
    obtain ⟨c, hr, hsampled⟩ := repeated_reach (d := d) logits (Bool.not_eq_true _ ▸ heos)
    have hends := h twoTokens c hr [] token [token] hsampled htoken
    cases hends
  · intro heos request c hr before other after hsampled hother
    refine eosLast_reach hr before other after hsampled ?_
    rw [isEosToken_iff hother, ← isEosToken_iff htoken]
    exact heos

end

/-- A decoder whose token 1 is the marker. -/
def markerDecoder (family : CandleModelFamily) (marker : String) : RealCandleDecoder (List Nat) (List Nat) Unit :=
  { echoDecoder with
    family
    tokenizer := { echoDecoder.tokenizer with idToToken token := if token = 1 then some marker else none } }

theorem gemma_turn_ends : turnMarker .gemma4 = some "<turn|>" ∧
    ∀ request (c : LedgerConf (markerDecoder .gemma4 "<turn|>")),
      Reach (ledgerWorld _ fun _ _ => True) (fun _ _ => True) (ledgerStart _ request) c →
        EndsTurn (markerDecoder .gemma4 "<turn|>") "<turn|>" (c.loc ()) := by
  have htoken : (markerDecoder .gemma4 "<turn|>").tokenizer.idToToken 1 = some "<turn|>" := rfl
  exact ⟨rfl, (turn_ends_iff (markerDecoder .gemma4 "<turn|>") [] rfl htoken).mpr (.inl rfl)⟩

/-- Qwen goes on after the marker that closed its turn. -/
theorem im_end_continues : ∃ c : LedgerConf (markerDecoder .qwen3 "<|im_end|>"),
    Reach (ledgerWorld _ fun _ _ => True) (fun _ _ => True) (ledgerStart _ twoTokens) c ∧
      turnMarker .qwen3 = some "<|im_end|>" ∧ ¬ EndsTurn (markerDecoder .qwen3 "<|im_end|>") "<|im_end|>" (c.loc ()) := by
  have heos : isEosToken (markerDecoder .qwen3 "<|im_end|>").tokenizer 1 = false := by decide
  obtain ⟨c, hr, hsampled⟩ := repeated_reach (d := markerDecoder .qwen3 "<|im_end|>") [] heos
  refine ⟨c, hr, rfl, fun hends => ?_⟩
  have hafter := hends [] 1 [1] hsampled rfl
  cases hafter

end Llmctl.Native
