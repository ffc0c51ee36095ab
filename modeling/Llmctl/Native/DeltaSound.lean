import Llmctl.Native.DecoderSound

/-!
# What is streamed and what is returned

A delta is what the visible text of a step has beyond the characters emitted so far. A
stop sequence that begins in an earlier token hides text that is already out.
-/

namespace Llmctl.Native

open Async

/-! ## The visible text -/

theorem findText_le {needle : List Char} : ∀ {text : List Char} {idx : Nat}, findText needle text = some idx →
    idx ≤ text.length
  | [], idx, h => by
    unfold findText at h
    split at h
    · cases h
      exact Nat.le_refl _
    · cases h
  | c :: cs, idx, h => by
    unfold findText at h
    split at h
    · cases h
      exact Nat.zero_le _
    · obtain ⟨n, hn, rfl⟩ := Option.map_eq_some_iff.mp h
      exact Nat.succ_le_succ (findText_le hn)

theorem findStop_le {stop : List String} {text : String} {idx : Nat} (h : findStop stop text = some idx) :
    idx ≤ text.toList.length := by
  have hmem := List.min?_mem h
  obtain ⟨needle, -, hneedle⟩ := List.mem_filterMap.mp hmem
  exact findText_le hneedle

/-- What is visible is a first part of the text, as long as the earliest stop sequence allows. -/
theorem visibleText_eq (stop : List String) (text : String) :
    ∃ n ≤ text.toList.length, visibleText stop text = text.toList.take n ∧
      (findStop stop text = none → n = text.toList.length) ∧ ∀ idx, findStop stop text = some idx → n = idx := by
  unfold visibleText
  cases h : findStop stop text with
  | none => exact ⟨_, Nat.le_refl _, List.take_length.symm, fun _ => rfl, nofun⟩
  | some idx => exact ⟨idx, findStop_le h, rfl, nofun, fun _ hi => Option.some.inj hi⟩

/-! ## The record of a generation -/

/-- What `tokenizer.decode` makes of tokens whose texts are `piece`s. -/
def textOf (piece : Nat → String) (tokens : List Nat) : String := String.ofList (tokens.flatMap fun t => (piece t).toList)

/-- The tokens that were sampled, up to the end of the sequence, and all that `on_token` was given. -/
structure Deltas where
  sampled : List Nat := []
  streamed : String := ""
  deriving DecidableEq

section
variable {T κ ρ : Type} (d : RealCandleDecoder T κ ρ) (piece : Nat → String)

namespace DecoderOp

/-- The texts of tokens are put one after the other; all else may be answered in any way. -/
def canDecode : (o : DecoderOp T ρ) → (DecoderSig T ρ d.model.Cache).Ans o → Bool
  | .decode tokens, .ok (text : String) => decide (text = textOf piece tokens)
  | _, _ => true

def deltas : (o : DecoderOp T ρ) → (DecoderSig T ρ d.model.Cache).Ans o → Deltas → Deltas
  | .sample _ _, .ok (next, _), l =>
    if isEosToken d.tokenizer next then l else { l with sampled := l.sampled ++ [next] }
  | .onToken delta, _, l => { l with streamed := l.streamed ++ delta }
  | _, _, l => l

end DecoderOp

def deltaWorld : World (DecoderSig T ρ d.model.Cache) Unit Deltas Unit Empty where
  can _ o a _ _ := o.canDecode d piece a
  loc _ o a l := o.deltas d a l
  sh _ _ _ _ g := g
  canDrop _ _ := false
  dropLoc _ _ l := l
  dropSh _ _ _ g := g
  canEnv e _ := e.elim
  env e _ := e.elim

abbrev DeltaConf := Conf (DecoderSig T ρ d.model.Cache) (Result NativeGeneration) Unit Deltas Unit

def deltaStart (request : NativeChatRequest) : DeltaConf d where
  prog _ := some (generateStreaming d request)
  loc _ := {}
  sh := ()

variable (stop : List String)

/-- What has been streamed is the text of all tokens but the last, and what is then
visible beyond it. -/
def Flushed (l : Deltas) : Prop :=
  l.streamed.toList = (textOf piece l.sampled.dropLast).toList ++
    (visibleText stop (textOf piece l.sampled)).drop (textOf piece l.sampled.dropLast).toList.length

structure Flushing (st : Generating ρ) (l : Deltas) : Prop where
  sampled : l.sampled = st.generated
  flushed : Flushed piece stop l
  emitted : st.stopped = false →
    l.streamed.toList = (textOf piece st.generated).toList ∧ st.emittedChars = l.streamed.toList.length

/-- No stop sequence begins in the text of the tokens before the last one. -/
def StopsInLastToken (tokens : List Nat) : Prop :=
  ∀ idx ∈ findStop stop (textOf piece tokens), (textOf piece tokens.dropLast).toList.length ≤ idx

instance (tokens : List Nat) : Decidable (StopsInLastToken piece stop tokens) :=
  inferInstanceAs (Decidable (∀ idx ∈ findStop stop (textOf piece tokens), (textOf piece tokens.dropLast).toList.length ≤ idx))

variable {d piece stop} {l : Deltas}

theorem textOf_snoc (tokens : List Nat) (next : Nat) :
    (textOf piece (tokens ++ [next])).toList = (textOf piece tokens).toList ++ (piece next).toList := by
  simp [textOf]

theorem textOf_dropLast (tokens : List Nat) :
    ∃ s, (textOf piece tokens).toList = (textOf piece tokens.dropLast).toList ++ s := by
  rcases List.eq_nil_or_concat tokens with rfl | ⟨tokens, next, rfl⟩
  · exact ⟨[], rfl⟩
  · exact ⟨(piece next).toList, by rw [List.concat_eq_append, textOf_snoc, List.dropLast_concat]⟩

/-- The streamed text is the visible one just when no stop sequence begins too early. -/
theorem flushed_iff (h : Flushed piece stop l) :
    l.streamed.toList = visibleText stop (textOf piece l.sampled) ↔ StopsInLastToken piece stop l.sampled := by
  obtain ⟨n, hn, hvisible, hnone, hsome⟩ := visibleText_eq stop (textOf piece l.sampled)
  obtain ⟨s, hs⟩ := @textOf_dropLast piece l.sampled
  have hkey : l.streamed.toList = visibleText stop (textOf piece l.sampled) ↔
      (textOf piece l.sampled.dropLast).toList.length ≤ n := by
    rw [h, hvisible, hs]
    constructor
    · intro heq
      have hlen := congrArg List.length heq
      simp only [List.length_append, List.length_drop, List.length_take] at hlen
      omega
    · intro hle
      rw [List.take_append, List.take_of_length_le hle, List.drop_left]
  rw [hkey]
  unfold StopsInLastToken
  cases hf : findStop stop (textOf piece l.sampled) with
  | none =>
    have hlen := congrArg List.length hs
    rw [List.length_append] at hlen
    have := hnone hf
    exact ⟨fun _ => nofun, fun _ => by omega⟩
  | some idx =>
    rw [hsome idx hf]
    exact ⟨fun hle idx' hidx => Option.some.inj hidx ▸ hle, fun hall => hall idx rfl⟩

/-! ## One generation -/

/-- A result that failed may have streamed anything. -/
def OkThen {α : Type} (P : α → Deltas → Prop) (r : Result α) (l : Deltas) : Prop := ∀ a, r = .ok a → P a l

theorem always_andThen {α β ε : Type} {p : DecoderProg d (Except ε α)} {f : α → DecoderProg d (Result β)}
    {err : ε → String} {P : β → Deltas → Prop}
    (h : Always (deltaWorld d piece) () (fun _ _ => True)
      (fun r l => ∀ a, r = .ok a → Always (deltaWorld d piece) () (fun _ _ => True) (OkThen P) (f a) l) p l) :
    Always (deltaWorld d piece) () (fun _ _ => True) (OkThen P) (andThen p f err) l := by
  refine h.seq fun r l' hr => ?_
  cases r with
  | error e => exact nofun
  | ok a => exact hr a rfl

theorem flushDelta_always {generated : List Nat} {next emittedChars : Nat}
    (hsampled : l.sampled = generated ++ [next]) (hstreamed : l.streamed.toList = (textOf piece generated).toList)
    (hemitted : emittedChars = l.streamed.toList.length) :
    Always (deltaWorld d piece) () (fun _ _ => True)
      (OkThen fun r l' => l'.sampled = l.sampled ∧ Flushed piece stop l' ∧ (r.1 = false →
        l'.streamed.toList = (textOf piece (generated ++ [next])).toList ∧ r.2 = l'.streamed.toList.length))
      (flushDelta d stop (generated ++ [next]) emittedChars) l := by
  refine always_andThen (Always.op trivial fun answer _ hc full hfull => ?_)
  cases hfull
  have htext : full = textOf piece (generated ++ [next]) := of_decide_eq_true hc
  obtain ⟨n, hn, hvisible, hnone, -⟩ := visibleText_eq stop full
  have hsnoc := @textOf_snoc piece generated next
  have hlen := congrArg List.length hsnoc
  rw [List.length_append, ← htext] at hlen
  have hflushed : ∀ l' : Deltas, l'.sampled = l.sampled →
      l'.streamed.toList = l.streamed.toList ++ (visibleText stop full).drop emittedChars →
      l'.sampled = l.sampled ∧ Flushed piece stop l' ∧ ((findStop stop full).isSome = false →
        l'.streamed.toList = (textOf piece (generated ++ [next])).toList ∧
          (visibleText stop full).length = l'.streamed.toList.length) := by
    intro l' hl' hstream
    rw [hemitted, hstreamed] at hstream
    refine ⟨hl', ?_, fun hhit => ?_⟩
    · unfold Flushed
      rw [hl', hsampled, List.dropLast_concat, ← htext]
      exact hstream
    · have hall := hnone (Option.not_isSome_iff_eq_none.mp (by simpa using hhit))
      rw [hall, List.take_length] at hvisible
      rw [hvisible, htext, hsnoc, List.drop_left] at hstream
      exact ⟨by rw [hstream, hsnoc], by rw [hvisible, hstream, htext, hsnoc]⟩
  simp only
  split
  · refine Always.op trivial fun _ _ _ => ?_
    rintro r hr
    cases hr
    exact hflushed _ rfl (by simp [deltaWorld, DecoderOp.deltas])
  · rename_i hge
    rintro r hr
    cases hr
    have hdrop : (visibleText stop full).drop emittedChars = [] := List.drop_eq_nil_of_le (Nat.not_lt.mp hge)
    obtain ⟨hs, hf, hrest⟩ := hflushed l rfl (by rw [hdrop, List.append_nil])
    refine ⟨hs, hf, fun hhit => ⟨(hrest hhit).1, ?_⟩⟩
    exact hemitted

theorem decodeStep_always {st : Generating ρ} (h : Flushing piece stop st l) (hst : st.stopped = false)
    (stepInput : List Nat) :
    Always (deltaWorld d piece) () (fun _ _ => True) (OkThen (Flushing piece stop)) (decodeStep d stop st stepInput) l := by
  refine always_andThen (Always.op trivial fun _ _ _ logits _ => ?_)
  refine always_andThen (Always.op trivial fun answer _ _ sampled hsampled => ?_)
  cases hsampled
  obtain ⟨next, sampler⟩ := sampled
  simp only
  by_cases heos : isEosToken d.tokenizer next = true
  · rw [if_pos heos]
    rintro st' hst'
    cases hst'
    have hl : DecoderOp.deltas d (.sample st.sampler logits) (.ok (next, sampler)) l = l := if_pos heos
    show Flushing piece stop _ (DecoderOp.deltas d (.sample st.sampler logits) (.ok (next, sampler)) l)
    rw [hl]
    exact ⟨h.sampled, h.flushed, nofun⟩
  · rw [if_neg heos]
    have hl : DecoderOp.deltas d (.sample st.sampler logits) (.ok (next, sampler)) l =
        { l with sampled := l.sampled ++ [next] } := if_neg heos
    obtain ⟨hstreamed, hemitted⟩ := h.emitted hst
    refine always_andThen ?_
    show Always (deltaWorld d piece) () (fun _ _ => True) _ _ (DecoderOp.deltas d (.sample st.sampler logits) (.ok (next, sampler)) l)
    rw [hl]
    have hsnoc : ({ l with sampled := l.sampled ++ [next] } : Deltas).sampled = st.generated ++ [next] := by rw [h.sampled]
    refine (flushDelta_always hsnoc hstreamed hemitted).mono (fun _ _ h => h) ?_
    intro r l' hr a ha
    obtain ⟨hs, hflushed, hrest⟩ := hr a ha
    rintro st' hst'
    cases hst'
    exact ⟨hs.trans hsnoc, hflushed, hrest⟩

theorem generateLoop_always : ∀ (steps : Nat) {st : Generating ρ} {l : Deltas}, Flushing piece stop st l →
    Always (deltaWorld d piece) () (fun _ _ => True) (OkThen (Flushing piece stop)) (generateLoop d stop steps st) l
  | 0, st, l, h => fun _ hr => Except.ok.inj hr ▸ h
  | steps + 1, st, l, h => by
    unfold generateLoop
    split
    · exact fun _ hr => Except.ok.inj hr ▸ h
    · rename_i hst
      refine always_andThen ((decodeStep_always h (by simpa using hst) _).mono (fun _ _ h => h) ?_)
      exact fun r l' hr st' hst' => generateLoop_always steps (hr st' hst')

/-- What a generation streamed against what it returns. -/
def Streams (piece : Nat → String) (stop : List String) (gen : NativeGeneration) (l : Deltas) : Prop :=
  l.streamed = gen.text ↔ StopsInLastToken piece stop l.sampled

theorem generateFrom_always (request : NativeChatRequest) (inputIds : List Nat) :
    Always (deltaWorld d piece) () (fun _ _ => True) (OkThen (Streams piece (request.stop.getD [])))
      (generateFrom d request inputIds) {} := by
  have hnone : Flushed piece (request.stop.getD []) ({} : Deltas) := by
    simp [Flushed, textOf, visibleText]
    split <;> simp
  refine always_andThen ((decodeStep_always ⟨rfl, hnone, fun _ => ⟨rfl, rfl⟩⟩ rfl inputIds).mono (fun _ _ h => h) ?_)
  · intro r l hr st hst
    refine always_andThen ((generateLoop_always _ (hr st hst)).mono (fun _ _ h => h) ?_)
    intro r' l' hr' st' hst'
    have hflushing := hr' st' hst'
    refine always_andThen (Always.op trivial fun answer _ hc full hfull => ?_)
    cases hfull
    have htext : full = textOf piece st'.generated := of_decide_eq_true hc
    rintro gen hgen
    cases hgen
    show l'.streamed = String.ofList (visibleText (request.stop.getD []) full) ↔
      StopsInLastToken piece (request.stop.getD []) l'.sampled
    rw [← flushed_iff hflushing.flushed, ← String.toList_inj, String.toList_ofList, htext, ← hflushing.sampled]

theorem generateStreaming_always (request : NativeChatRequest) :
    Always (deltaWorld d piece) () (fun _ _ => True) (OkThen (Streams piece (request.stop.getD [])))
      (generateStreaming d request) {} := by
  refine Always.op trivial fun sound _ _ => ?_
  cases sound with
  | false => exact nofun
  | true =>
    have hlocked : Always (deltaWorld d piece) () (fun _ _ => True) (OkThen (Streams piece (request.stop.getD [])))
        (generateLocked d request) {} := by
      refine Always.op trivial fun reset _ _ => ?_
      refine always_andThen (Always.op trivial fun served _ _ => ?_)
      split
      · exact nofun
      · rintro _ -
        refine always_andThen (Always.op trivial fun ids _ _ inputIds _ => ?_)
        simp only
        split
        · exact nofun
        · exact generateFrom_always request _
    refine hlocked.seq fun r l hr => Always.op trivial fun _ _ _ => ?_
    exact hr

/-- The deltas make up the returned text just when the earliest stop sequence, if any,
does not begin before the last of the sampled tokens. -/
theorem streamed_iff (d : RealCandleDecoder T κ ρ) (piece : Nat → String) (request : NativeChatRequest) {c : DeltaConf d}
    (hr : Reach (deltaWorld d piece) (fun _ _ => True) (deltaStart d request) c) {gen : NativeGeneration}
    (hgen : c.result () = some (.ok gen)) :
    (c.loc ()).streamed = gen.text ↔ StopsInLastToken piece (request.stop.getD []) (c.loc ()).sampled := by
  have htyped : Typed (deltaWorld d piece) (fun _ _ _ => True)
      (fun _ => OkThen (Streams piece (request.stop.getD []))) (deltaStart d request) := by
    intro i p hp
    cases hp
    exact generateStreaming_always request
  exact htyped.reach hr () _ (Conf.prog_of_result hgen) gen rfl

end

/-- Tokens 1 and 2 spell `xab`; the second parameter says where they are cut. -/
def cutAt : Bool → Nat → String
  | true, 1 => "x"
  | true, _ => "ab"
  | false, 1 => "xa"
  | false, _ => "b"

def stopAtAb : NativeChatRequest := { messages := [], maxTokens := some 2, stop := some ["ab"] }

/-- The next answer of a run that samples `token`. -/
def answerDecode (piece : Nat → String) (token : Nat) :
    Choice (DecoderSig (List Nat) Unit echoDecoder.model.Cache) Unit Unit Empty :=
  .answer () fun
    | .lock, _ => some true
    | .swapServed, _ => some false
    | .unlock, _ | .onToken _, _ => some ()
    | .resetKvCache, _ => some .cleared
    | .encode _, _ => some (.ok [7])
    | .nextTokenLogits .., _ => some (.ok [])
    | .sample .., _ => some (.ok (token, ()))
    | .decode tokens, _ => some (.ok (textOf piece tokens))

/-- The stop sequence is the whole second token. -/
theorem streamed_whole_token : ∃ c : DeltaConf echoDecoder,
    c.result () = some (.ok ⟨"x", 1, 2, "stop"⟩) ∧ (c.loc ()).streamed = "x" := by
  have hrun : ∃ c : DeltaConf echoDecoder,
      Reach (deltaWorld echoDecoder (cutAt true)) (fun _ _ => True) (deltaStart echoDecoder stopAtAb) c ∧
        c.result () = some (.ok ⟨"x", 1, 2, "stop"⟩) ∧ (c.loc ()).sampled = [1, 2] :=
    Conf.exists_reach (List.replicate 8 (answerDecode (cutAt true) 1) ++ List.replicate 5 (answerDecode (cutAt true) 2))
      (by decide)
  obtain ⟨c, hr, hgen, hsampled⟩ := hrun
  refine ⟨c, hgen, (streamed_iff echoDecoder (cutAt true) stopAtAb hr hgen).mpr ?_⟩
  rw [hsampled]
  decide

/-- A stop sequence that is cut into two tokens: its first character has been streamed. -/
theorem streamed_cut_token : ∃ c : DeltaConf echoDecoder,
    Reach (deltaWorld echoDecoder (cutAt false)) (fun _ _ => True) (deltaStart echoDecoder stopAtAb) c ∧
      c.result () = some (.ok ⟨"x", 1, 2, "stop"⟩) ∧ (c.loc ()).streamed = "xa" :=
  Conf.exists_reach (List.replicate 8 (answerDecode (cutAt false) 1) ++ List.replicate 5 (answerDecode (cutAt false) 2))
    (by decide)

end Llmctl.Native
