import Mathlib.Data.List.Induction
import Llmctl.Observability.Sse

/-!
# Thinking and output

The parser reads a tag where a scan of the content finds one, but turns around once at most
with a delta. It is at one with the scan as long as no delta completes two tags, or four,
and so on (`followsScan_iff`).
-/

namespace Llmctl.Observability

open Text Client

def thinkTags : Tags Char where
  opening := "<think>".toList
  closing := "</think>".toList
  apart := by decide
  ne := by decide

theorem thinkTags_fits : thinkTags.Fits tagTailLen where
  le inside := by cases inside <;> decide
  eq := ⟨true, by decide⟩

def ContentPhase.ofInside (inside : Bool) : ContentPhase := if inside then .thinking else .output

namespace SseContentParser

/-! ## One delta -/

variable {p : SseContentParser} {inside : Bool} {delta : List Char}

theorem phase_ne (inside : Bool) : ContentPhase.ofInside inside ≠ .ofInside (!inside) := by cases inside <;> decide

/-- A delta that completes the tag turns the parser around. -/
theorem classifyDelta_turn (hphase : p.phase = .ofInside inside) (h : thinkTags.tag inside <:+: p.tagTail ++ delta) :
    p.classifyDelta delta = { p with phase := .ofInside (!inside), tagTail := (p.tagTail ++ delta).rtake tagTailLen } := by
  unfold classifyDelta
  cases inside with
  | false => exact if_pos ⟨hphase, h⟩
  | true =>
    have hthinking : ¬ (p.phase = .output ∧ "<think>".toList <:+: p.tagTail ++ delta) := by
      rintro ⟨houtput, -⟩
      exact phase_ne true (hphase.symm.trans houtput)
    exact (if_neg hthinking).trans (if_pos ⟨hphase, h⟩)

/-- Another delta is counted in the bucket of the parser's phase. -/
theorem classifyDelta_count (hphase : p.phase = .ofInside inside) (h : ¬ thinkTags.tag inside <:+: p.tagTail ++ delta) :
    p.classifyDelta delta =
      if inside then { p with tagTail := (p.tagTail ++ delta).rtake tagTailLen, thinkingDeltas := p.thinkingDeltas + 1 }
      else { p with tagTail := (p.tagTail ++ delta).rtake tagTailLen, outputDeltas := p.outputDeltas + 1 } := by
  have hentered : ¬ (p.phase = .output ∧ "<think>".toList <:+: p.tagTail ++ delta) := by
    rintro ⟨houtput, hinfix⟩
    cases inside with
    | false => exact h hinfix
    | true => exact phase_ne true (hphase.symm.trans houtput)
  have hleft : ¬ (p.phase = .thinking ∧ "</think>".toList <:+: p.tagTail ++ delta) := by
    rintro ⟨hthinking, hinfix⟩
    cases inside with
    | false => exact phase_ne false (hphase.symm.trans hthinking)
    | true => exact h hinfix
  unfold classifyDelta
  refine (if_neg hentered).trans ((if_neg hleft).trans ?_)
  cases inside <;> simp only [hphase, ContentPhase.ofInside] <;> rfl

theorem exists_inside (p : SseContentParser) : ∃ inside, p.phase = .ofInside inside := by
  cases hphase : p.phase with
  | output => exact ⟨false, rfl⟩
  | thinking => exact ⟨true, rfl⟩

theorem classifyDelta_tagTail (p : SseContentParser) (delta : List Char) :
    (p.classifyDelta delta).tagTail = (p.tagTail ++ delta).rtake tagTailLen := by
  obtain ⟨inside, hphase⟩ := p.exists_inside
  by_cases h : thinkTags.tag inside <:+: p.tagTail ++ delta
  · rw [classifyDelta_turn hphase h]
  · rw [classifyDelta_count hphase h]
    cases inside <;> rfl

theorem classifyDelta_phase (hphase : p.phase = .ofInside inside) (delta : List Char) :
    (p.classifyDelta delta).phase = .ofInside (thinkTags.read tagTailLen (inside, p.tagTail) delta).1 := by
  by_cases h : thinkTags.tag inside <:+: p.tagTail ++ delta
  · simp only [classifyDelta_turn hphase h, Tags.read, if_pos h]
  · rw [classifyDelta_count hphase h]
    simp only [Tags.read, if_neg h]
    cases inside <;> exact hphase

theorem feed_concat (p : SseContentParser) (deltas : List (List Char)) (delta : List Char) :
    p.feed (deltas ++ [delta]) = (p.feed deltas).classifyDelta delta := List.foldl_append ..

/-- The parser keeps the last characters of the content. -/
theorem feed_tagTail (deltas : List (List Char)) : (feed {} deltas).tagTail = deltas.flatten.rtake tagTailLen := by
  induction deltas using List.reverseRecOn with
  | nil => rfl
  | append_singleton deltas delta ih =>
    rw [feed_concat, classifyDelta_tagTail, ih, Tags.rtake_rtake_append, List.flatten_append, List.flatten_singleton]

/-! ## The scan -/

/-- The parser is in the phase that the scan of the content so far ends in. -/
def AtScan (deltas : List (List Char)) : Prop :=
  (feed {} deltas).phase = .ofInside (thinkTags.scan false deltas.flatten).inside

/-- After the delta the parser is in the phase of the scan, and a delta that completes no tag was
counted once in the bucket of the phase it was received in. -/
def FollowsScanAt (early : List (List Char)) (delta : List Char) : Prop :=
  AtScan (early ++ [delta]) ∧
    (thinkTags.completedBy early.flatten delta = 0 →
      let inside := (thinkTags.scan false early.flatten).inside
      (feed {} (early ++ [delta])).thinkingDeltas = (feed {} early).thinkingDeltas + (if inside then 1 else 0) ∧
      (feed {} (early ++ [delta])).outputDeltas = (feed {} early).outputDeltas + if inside then 0 else 1)

def FollowsScan (deltas : List (List Char)) : Prop :=
  ∀ early delta late, deltas = early ++ delta :: late → FollowsScanAt early delta

theorem atScan_concat_iff {deltas : List (List Char)} (h : AtScan deltas) (delta : List Char) :
    AtScan (deltas ++ [delta]) ↔
      ¬ (0 < thinkTags.completedBy deltas.flatten delta ∧ thinkTags.completedBy deltas.flatten delta % 2 = 0) := by
  have hread := Tags.read_eq thinkTags_fits deltas.flatten delta
  unfold AtScan at *
  rw [feed_concat, classifyDelta_phase h, feed_tagTail, hread, List.flatten_append, List.flatten_singleton,
    Tags.scan_inside_append]
  generalize thinkTags.completedBy deltas.flatten delta = k
  rcases Nat.eq_zero_or_pos k with rfl | hpos
  · simp
  · rcases Nat.mod_two_eq_zero_or_one k with heven | hodd
    · simp only [hpos, heven, decide_true, Bool.xor_true, Nat.zero_ne_one, decide_false, Bool.xor_false, and_self, not_true,
        iff_false]
      exact fun hsame => phase_ne _ hsame.symm
    · simp [hpos, hodd]

theorem counted_of_atScan {deltas : List (List Char)} (h : AtScan deltas) {delta : List Char}
    (hnone : thinkTags.completedBy deltas.flatten delta = 0) :
    (feed {} (deltas ++ [delta])).thinkingDeltas =
        (feed {} deltas).thinkingDeltas + (if (thinkTags.scan false deltas.flatten).inside then 1 else 0) ∧
      (feed {} (deltas ++ [delta])).outputDeltas =
        (feed {} deltas).outputDeltas + if (thinkTags.scan false deltas.flatten).inside then 0 else 1 := by
  have hno : ¬ thinkTags.tag (thinkTags.scan false deltas.flatten).inside <:+: (feed {} deltas).tagTail ++ delta := by
    rw [feed_tagTail, Tags.infix_tail_iff thinkTags_fits, ← Tags.scan_completed_eq_zero_iff, ← Tags.completedBy_eq]
    exact hnone
  rw [feed_concat, classifyDelta_count h hno]
  cases (thinkTags.scan false deltas.flatten).inside <;> simp

theorem followsScanAt_iff {deltas : List (List Char)} (h : AtScan deltas) (delta : List Char) :
    FollowsScanAt deltas delta ↔
      ¬ (0 < thinkTags.completedBy deltas.flatten delta ∧ thinkTags.completedBy deltas.flatten delta % 2 = 0) :=
  ⟨fun hfollows => (atScan_concat_iff h delta).mp hfollows.1,
    fun hodd => ⟨(atScan_concat_iff h delta).mpr hodd, counted_of_atScan h⟩⟩

theorem forall_split_concat {P : List (List Char) → List Char → Prop} {deltas : List (List Char)} {delta : List Char} :
    (∀ early d late, deltas ++ [delta] = early ++ d :: late → P early d) ↔
      (∀ early d late, deltas = early ++ d :: late → P early d) ∧ P deltas delta := by
  constructor
  · intro h
    refine ⟨fun early d late hsplit => h early d (late ++ [delta]) ?_, h deltas delta [] rfl⟩
    rw [hsplit, List.append_assoc, List.cons_append]
  · rintro ⟨h, hlast⟩ early d late hsplit
    cases late using List.reverseRecOn with
    | nil =>
      obtain ⟨rfl, hd⟩ := List.append_inj' hsplit rfl
      cases hd
      exact hlast
    | append_singleton late last =>
      rw [← List.cons_append, ← List.append_assoc] at hsplit
      exact h early d late (List.append_inj' hsplit rfl).1

theorem atScan_of_followsScan {deltas : List (List Char)} (h : FollowsScan deltas) : AtScan deltas := by
  cases deltas using List.reverseRecOn with
  | nil => rfl
  | append_singleton deltas delta => exact (h deltas delta [] rfl).1

/-- The parser follows the scan where no delta completes an even number of tags, two or more. -/
theorem followsScan_iff (deltas : List (List Char)) : FollowsScan deltas ↔
    ∀ early delta late, deltas = early ++ delta :: late →
      ¬ (0 < thinkTags.completedBy early.flatten delta ∧ thinkTags.completedBy early.flatten delta % 2 = 0) := by
  induction deltas using List.reverseRecOn with
  | nil => exact ⟨fun _ _ _ _ h => by simp at h, fun _ _ _ _ h => by simp at h⟩
  | append_singleton deltas delta ih =>
    unfold FollowsScan
    rw [forall_split_concat, forall_split_concat, ← ih]
    exact and_congr_right fun hfollows => followsScanAt_iff (atScan_of_followsScan hfollows) delta

/-- A section that begins and ends in one delta leaves the parser in it. -/
theorem section_in_one_delta : (feed {} ["<think>a</think>b".toList]).phase = .thinking ∧
    (thinkTags.scan false "<think>a</think>b".toList).inside = false := by
  decide

/-! ## The bytes of a stream -/

section
variable (numbers : Numbers) (order : FieldOrder)

def valueDeltas (value : Value) : List (List Char) :=
  match value.get "choices" with
  | some (.array choices) => choices.filterMap choiceContent
  | _ => []

/-- The content deltas of a frame. -/
def frameDeltas (frame : List Char) : List (List Char) :=
  (frameData frame).flatMap fun data => ((Value.read numbers order data).map valueDeltas).getD []

/-- The content deltas of the frames that are not too large. -/
def framesDeltas (frames : List (List Char)) : List (List Char) :=
  (frames.filter fun frame => utf8Size frame ≤ maxSseContentBufferBytes).flatMap (frameDeltas numbers order)

theorem feed_append (p : SseContentParser) (deltas deltas' : List (List Char)) :
    p.feed (deltas ++ deltas') = (p.feed deltas).feed deltas' := List.foldl_append ..

theorem foldl_choices (p : SseContentParser) (choices : List Value) :
    (choices.foldl (fun p choice =>
      match choiceContent choice with
      | some content => p.classifyDelta content
      | none => p) p) = p.feed (choices.filterMap choiceContent) := by
  induction choices generalizing p with
  | nil => rfl
  | cons choice choices ih =>
    rw [List.foldl_cons, ih]
    cases hcontent : choiceContent choice with
    | none => rw [List.filterMap_cons_none hcontent]
    | some content =>
      rw [List.filterMap_cons_some hcontent]
      rfl

theorem processDeltaValue_eq (p : SseContentParser) (value : Value) : p.processDeltaValue value = p.feed (valueDeltas value) := by
  unfold processDeltaValue valueDeltas
  cases value.get "choices" with
  | none => rfl
  | some choices =>
    cases choices with
    | array choices => exact foldl_choices p choices
    | _ => rfl

theorem processFrame_eq (p : SseContentParser) (frame : List Char) :
    p.processFrame numbers order frame = p.feed (frameDeltas numbers order frame) := by
  unfold processFrame frameDeltas
  induction frameData frame generalizing p with
  | nil => rfl
  | cons data rest ih =>
    rw [List.foldl_cons, ih, List.flatMap_cons, feed_append]
    cases Value.read numbers order data with
    | none => rfl
    | some value => exact congrArg (feed · _) (processDeltaValue_eq p value)

theorem classifyDelta_buffer (p : SseContentParser) (buffer delta : List Char) :
    { p with buffer := buffer }.classifyDelta delta = { p.classifyDelta delta with buffer := buffer } := by
  obtain ⟨inside, hphase⟩ := p.exists_inside
  have hphase' : { p with buffer := buffer }.phase = .ofInside inside := hphase
  by_cases h : thinkTags.tag inside <:+: p.tagTail ++ delta
  · rw [classifyDelta_turn hphase h, classifyDelta_turn hphase' h]
  · rw [classifyDelta_count hphase h, classifyDelta_count hphase' h]
    cases inside <;> rfl

theorem feed_buffer (p : SseContentParser) (buffer : List Char) (deltas : List (List Char)) :
    { p with buffer := buffer }.feed deltas = { p.feed deltas with buffer := buffer } := by
  induction deltas generalizing p with
  | nil => rfl
  | cons delta deltas ih =>
    show ({ p with buffer := buffer }.classifyDelta delta).feed deltas = _
    rw [classifyDelta_buffer, ih]
    rfl

theorem drain_eq {fuel : Nat} {p : SseContentParser} (h : p.buffer.length ≤ fuel) :
    p.drain numbers order fuel =
      { p.feed (framesDeltas numbers order (sseFraming.frames p.buffer).1) with buffer := (sseFraming.frames p.buffer).2 } := by
  induction fuel generalizing p with
  | zero =>
    have hnil : p.buffer = [] := List.eq_nil_of_length_eq_zero (Nat.le_zero.mp h)
    have hnone : sseFraming.split p.buffer = none := by rw [hnil]; rfl
    rw [sseFraming.frames_none hnone]
    rfl
  | succ fuel ih =>
    cases hsplit : splitFrame p.buffer with
    | none =>
      rw [sseFraming.frames_none hsplit]
      simp only [drain, hsplit]
      rfl
    | some found =>
      obtain ⟨frame, rest⟩ := found
      have hlen := sseFraming.shorter hsplit
      rw [sseFraming.frames_some hsplit]
      simp only [drain, hsplit]
      split
      · rename_i hlarge
        rw [ih (by show rest.length ≤ fuel; omega)]
        have hdrop : ¬ utf8Size frame ≤ maxSseContentBufferBytes := Nat.not_le.mpr hlarge
        simp only [framesDeltas, List.filter_cons, hdrop, decide_false, Bool.false_eq_true, if_false, feed_buffer]
      · rename_i hsmall
        have hkeep : utf8Size frame ≤ maxSseContentBufferBytes := Nat.not_lt.mp hsmall
        rw [processFrame_eq, feed_buffer, ih (by show rest.length ≤ fuel; omega)]
        simp only [framesDeltas, List.filter_cons, hkeep, decide_true, if_true, List.flatMap_cons, feed_append, feed_buffer]

/-- A push feeds the deltas of the frames that are complete and keeps what follows them. -/
theorem push_eq (p : SseContentParser) (bytes : List UInt8) :
    p.push numbers order bytes =
      { p.feed (framesDeltas numbers order (sseFraming.frames (p.buffer ++ lossy bytes)).1) with
        buffer := (sseFraming.frames (p.buffer ++ lossy bytes)).2 } := by
  unfold push
  rw [drain_eq numbers order (Nat.le_refl _), feed_buffer]

/-- A run of pushes feeds the deltas of the frames of the whole text. -/
theorem foldl_push (chunks : List (List UInt8)) :
    chunks.foldl (push numbers order) {} =
      { feed {} (framesDeltas numbers order (sseFraming.frames (chunks.map lossy).flatten).1) with
        buffer := (sseFraming.frames (chunks.map lossy).flatten).2 } := by
  induction chunks using List.reverseRecOn with
  | nil =>
    rw [List.map_nil, List.flatten_nil, sseFraming.frames_none rfl]
    rfl
  | append_singleton chunks chunk ih =>
    rw [List.foldl_append, List.foldl_cons, List.foldl_nil, ih, push_eq, List.map_append, List.flatten_append,
      List.map_singleton, List.flatten_singleton, sseFraming.frames_append (chunks.map lossy).flatten]
    simp only [framesDeltas, List.filter_append, List.flatMap_append, feed_append, feed_buffer]

end

end SseContentParser

end Llmctl.Observability
