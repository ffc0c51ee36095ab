import Mathlib.Data.List.Induction
import Llmctl.Client.EventsSound
import Llmctl.Server.Sse

/-!
# How a stream was cut

The usage of a stream is that of the frames of its text, whatever the chunks, unless one of
the parser's two checks fails (`pushAll_ok`). What fails them depends on the cuts
(`outcome_eq_iff`): the buffer is checked only after a chunk that completes no frame.
-/

namespace Llmctl

open Text Client

namespace SseUsageParser

/-! ## Sums -/

theorem addUsage_assoc (a b c : Nat × Nat) : addUsage (addUsage a b) c = addUsage a (addUsage b c) := by
  simp only [addUsage, saturatingAdd, Prod.mk.injEq]
  omega

/-- Both counts fit in 64 bits. -/
def Capped (total : Nat × Nat) : Prop := total.1 < 2 ^ 64 ∧ total.2 < 2 ^ 64

theorem capped_addUsage (a b : Nat × Nat) : Capped (addUsage a b) := by
  simp only [Capped, addUsage, saturatingAdd]
  omega

theorem addUsage_zero {total : Nat × Nat} (h : Capped total) : addUsage total (0, 0) = total := by
  obtain ⟨input, output⟩ := total
  simp only [Capped] at h
  simp only [addUsage, saturatingAdd, Prod.mk.injEq]
  omega

section
variable (numbers : Numbers) (order : FieldOrder)

/-- The usage of frames, added to a total. -/
def framesUsage (total : Nat × Nat) (frames : List (List Char)) : Nat × Nat :=
  frames.foldl (fun total frame => addUsage total (sseFrameUsageTokens (dataUsage numbers order) (String.ofList frame))) total

theorem capped_framesUsage {total : Nat × Nat} (h : Capped total) (frames : List (List Char)) :
    Capped (framesUsage numbers order total frames) := by
  induction frames generalizing total with
  | nil => exact h
  | cons frame frames ih => exact ih (capped_addUsage _ _)

theorem addUsage_framesUsage {total : Nat × Nat} (used : Nat × Nat) (frames : List (List Char)) :
    addUsage total (framesUsage numbers order used frames) = framesUsage numbers order (addUsage total used) frames := by
  induction frames generalizing used with
  | nil => rfl
  | cons frame frames ih =>
    simp only [framesUsage, List.foldl_cons] at ih ⊢
    rw [ih, addUsage_assoc]

/-! ## One chunk -/

/-- The frame is longer than the parser takes. -/
def TooLarge (frame : List Char) : Prop := maxSseUsageBufferBytes < utf8Size frame

instance (frame : List Char) : Decidable (TooLarge frame) := inferInstanceAs (Decidable (_ < _))

theorem readFrames_eq {fuel : Nat} {buffer : List Char} (h : buffer.length ≤ fuel) (total : Nat × Nat) :
    readFrames (dataUsage numbers order) fuel buffer total =
      if ∃ frame ∈ (sseFraming.frames buffer).1, TooLarge frame then .error frameTooLarge
      else .ok ((sseFraming.frames buffer).2, framesUsage numbers order total (sseFraming.frames buffer).1) := by
  induction fuel generalizing buffer total with
  | zero =>
    have hnil : buffer = [] := List.eq_nil_of_length_eq_zero (Nat.le_zero.mp h)
    have hnone : sseFraming.split buffer = none := by rw [hnil]; rfl
    rw [sseFraming.frames_none hnone]
    simp [readFrames, framesUsage]
  | succ fuel ih =>
    cases hsplit : splitFrame buffer with
    | none =>
      rw [sseFraming.frames_none hsplit]
      simp [readFrames, framesUsage, hsplit]
    | some found =>
      obtain ⟨frame, rest⟩ := found
      have hlen := sseFraming.shorter hsplit
      rw [sseFraming.frames_some hsplit]
      simp only [readFrames, hsplit]
      by_cases hlarge : TooLarge frame
      · have hsize : maxSseUsageBufferBytes < utf8Size frame := hlarge
        rw [if_pos hsize, if_pos ⟨frame, List.mem_cons_self .., hlarge⟩]
      · have hsize : ¬ maxSseUsageBufferBytes < utf8Size frame := hlarge
        rw [if_neg hsize, ih (by omega)]
        simp only [List.mem_cons, exists_eq_or_imp, hlarge, false_or, framesUsage, List.foldl_cons]
        rfl

theorem splitFrame_isNone {buffer : List Char} : (splitFrame buffer).isNone = true ↔ (sseFraming.frames buffer).1 = [] := by
  cases hsplit : splitFrame buffer with
  | none => simp [sseFraming.frames_none hsplit]
  | some found => simp [sseFraming.frames_some hsplit]

/-- A chunk fails on a frame that is too large, complete or not; one that is not complete is looked
at only after a chunk that completes none. -/
def Fails (buffer : List Char) : Prop :=
  (∃ frame ∈ (sseFraming.frames buffer).1, TooLarge frame) ∨
    ((sseFraming.frames buffer).1 = [] ∧ TooLarge (sseFraming.frames buffer).2)

theorem push_error {st : List Char × (Nat × Nat)} {chunk : List UInt8} (h : Fails (st.1 ++ lossy chunk)) :
    push numbers order st chunk = .error frameTooLarge := by
  unfold push ssePush
  rw [String.toList_ofList]
  rcases h with hlarge | ⟨hnone, hlarge⟩
  · simp only [readFrames_eq numbers order (Nat.le_refl _), if_pos hlarge]
    split <;> rfl
  · have hsplit := splitFrame_isNone.mpr hnone
    have hrest : (sseFraming.frames (st.1 ++ lossy chunk)).2 = st.1 ++ lossy chunk := by
      rw [sseFraming.frames_none (Option.isNone_iff_eq_none.mp hsplit)]
    rw [hrest] at hlarge
    have hbuffer : maxSseUsageBufferBytes < utf8Size (st.1 ++ lossy chunk) ∧ (splitFrame (st.1 ++ lossy chunk)).isNone :=
      ⟨hlarge, hsplit⟩
    simp only [if_pos hbuffer]
    rfl

theorem push_ok {st : List Char × (Nat × Nat)} {chunk : List UInt8} (hcapped : Capped st.2)
    (h : ¬ Fails (st.1 ++ lossy chunk)) :
    push numbers order st chunk = .ok ((sseFraming.frames (st.1 ++ lossy chunk)).2,
      framesUsage numbers order st.2 (sseFraming.frames (st.1 ++ lossy chunk)).1) := by
  obtain ⟨hlarge, hopen⟩ := not_or.mp h
  have hbuffer : ¬ (maxSseUsageBufferBytes < utf8Size (st.1 ++ lossy chunk) ∧ (splitFrame (st.1 ++ lossy chunk)).isNone) := by
    rintro ⟨hsize, hsplit⟩
    refine hopen ⟨splitFrame_isNone.mp hsplit, ?_⟩
    rwa [sseFraming.frames_none (Option.isNone_iff_eq_none.mp hsplit)]
  unfold push ssePush
  simp only [String.toList_ofList, if_neg hbuffer, readFrames_eq numbers order (Nat.le_refl _), if_neg hlarge]
  show Except.ok _ = _
  rw [addUsage_framesUsage, addUsage_zero hcapped]

/-! ## A run -/

/-- The text of the chunks, each decoded by itself. -/
def streamText (chunks : List (List UInt8)) : List Char := (chunks.map lossy).flatten

theorem streamText_concat (chunks : List (List UInt8)) (chunk : List UInt8) :
    streamText (chunks ++ [chunk]) = streamText chunks ++ lossy chunk := by
  simp [streamText]

/-- A frame of the stream is too large, or a chunk that completes no frame ends within one that
already is. -/
def Overlong (chunks : List (List UInt8)) : Prop :=
  (∃ frame ∈ (sseFraming.frames (streamText chunks)).1, TooLarge frame) ∨
    ∃ early chunk late, chunks = early ++ chunk :: late ∧
      (sseFraming.frames (streamText (early ++ [chunk]))).1 = (sseFraming.frames (streamText early)).1 ∧
      TooLarge (sseFraming.frames (streamText (early ++ [chunk]))).2

theorem exists_split_concat {α : Type} {P : List α → α → Prop} {xs : List α} {x : α} :
    (∃ early y late, xs ++ [x] = early ++ y :: late ∧ P early y) ↔
      (∃ early y late, xs = early ++ y :: late ∧ P early y) ∨ P xs x := by
  constructor
  · rintro ⟨early, y, late, hsplit, hP⟩
    cases late using List.reverseRecOn with
    | nil =>
      obtain ⟨rfl, hy⟩ := List.append_inj' hsplit rfl
      cases hy
      exact .inr hP
    | append_singleton late last =>
      rw [← List.cons_append, ← List.append_assoc] at hsplit
      exact .inl ⟨early, y, late, (List.append_inj' hsplit rfl).1, hP⟩
  · rintro (⟨early, y, late, hsplit, hP⟩ | hP)
    · exact ⟨early, y, late ++ [x], by rw [hsplit, List.append_assoc, List.cons_append], hP⟩
    · exact ⟨xs, x, [], rfl, hP⟩

theorem overlong_concat {chunks : List (List UInt8)} {chunk : List UInt8} :
    Overlong (chunks ++ [chunk]) ↔
      Overlong chunks ∨ Fails ((sseFraming.frames (streamText chunks)).2 ++ lossy chunk) := by
  unfold Overlong Fails
  rw [exists_split_concat, streamText_concat, sseFraming.frames_append]
  simp only [List.mem_append, or_and_right, exists_or, List.append_right_eq_self]
  exact or_or_or_comm

theorem pushAll_concat (chunks : List (List UInt8)) (chunk : List UInt8) :
    pushAll numbers order (chunks ++ [chunk]) = (pushAll numbers order chunks).bind fun st => push numbers order st chunk := by
  unfold pushAll
  rw [List.foldlM_append]
  cases chunks.foldlM (push numbers order) ([], (0, 0)) with
  | error e => rfl
  | ok st => exact bind_pure (push numbers order st chunk)

theorem capped_zero : Capped (0, 0) := ⟨by decide, by decide⟩

/-- The parser fails on an overlong stream; else its usage is that of the frames of the text. -/
theorem pushAll_eq (chunks : List (List UInt8)) :
    (Overlong chunks → pushAll numbers order chunks = .error frameTooLarge) ∧
    (¬ Overlong chunks → pushAll numbers order chunks =
      .ok ((sseFraming.frames (streamText chunks)).2,
        framesUsage numbers order (0, 0) (sseFraming.frames (streamText chunks)).1)) := by
  induction chunks using List.reverseRecOn with
  | nil =>
    have hnone : sseFraming.frames [] = ([], []) := sseFraming.frames_none rfl
    refine ⟨fun h => ?_, fun _ => by rw [streamText, List.map_nil, List.flatten_nil, hnone]; rfl⟩
    rcases h with ⟨frame, hmem, -⟩ | ⟨early, chunk, late, hsplit, -⟩
    · rw [streamText, List.map_nil, List.flatten_nil, hnone] at hmem
      cases hmem
    · simp at hsplit
  | append_singleton chunks chunk ih =>
    rw [overlong_concat, pushAll_concat]
    constructor
    · rintro (hearly | hfails)
      · rw [ih.1 hearly]
        rfl
      · by_cases hearly : Overlong chunks
        · rw [ih.1 hearly]
          rfl
        · rw [ih.2 hearly]
          exact push_error numbers order hfails
    · intro hok
      obtain ⟨hearly, hfails⟩ := not_or.mp hok
      rw [ih.2 hearly, streamText_concat, sseFraming.frames_append (streamText chunks)]
      refine (push_ok numbers order (capped_framesUsage numbers order capped_zero _) hfails).trans ?_
      simp only [framesUsage, List.foldl_append]

theorem outcome_of_overlong {chunks : List (List UInt8)} (h : Overlong chunks) :
    outcome numbers order chunks = .error frameTooLarge := by
  rw [outcome, (pushAll_eq numbers order chunks).1 h]
  rfl

theorem outcome_of_not_overlong {chunks : List (List UInt8)} (h : ¬ Overlong chunks) :
    outcome numbers order chunks =
      .ok (framesUsage numbers order (0, 0) (sseFraming.frames (streamText chunks)).1) := by
  rw [outcome, (pushAll_eq numbers order chunks).2 h]
  rfl

/-- Two cuttings that decode to the same text have the same outcome where both are overlong or
neither is. -/
theorem outcome_eq_iff {chunks chunks' : List (List UInt8)} (htext : streamText chunks = streamText chunks') :
    outcome numbers order chunks = outcome numbers order chunks' ↔ (Overlong chunks ↔ Overlong chunks') := by
  by_cases h : Overlong chunks <;> by_cases h' : Overlong chunks'
  · simp [outcome_of_overlong numbers order h, outcome_of_overlong numbers order h', h, h']
  · simp [outcome_of_overlong numbers order h, outcome_of_not_overlong numbers order h', h, h']
  · simp [outcome_of_not_overlong numbers order h, outcome_of_overlong numbers order h', h, h']
  · simp [outcome_of_not_overlong numbers order h, outcome_of_not_overlong numbers order h', h, h', htext]

/-- Cuts that do not begin within a character decode to the text of the bytes. -/
theorem streamText_of_whole {chunks : List (List UInt8)}
    (h : ∀ chunk ∈ chunks, ∀ c ∈ chunk.head?, isContinuation c = false) : streamText chunks = lossy chunks.flatten :=
  lossy_flatten h

end

/-! ## A late check -/

theorem splitFrame_none {s : List Char} (h : '\n' ∉ s) : splitFrame s = none := by
  cases hsplit : splitFrame s with
  | none => rfl
  | some found =>
    obtain ⟨frame, rest⟩ := found
    refine absurd ?_ h
    rw [splitFrame_eq hsplit]
    simp

def blankLine : List UInt8 := [10, 10]

/-- A frame of `n` letters that has no end. -/
def letters (n : Nat) : List UInt8 := List.replicate n 97

theorem lossy_letters (n : Nat) : lossy (letters n) = List.replicate n 'a' := by
  rw [lossy_ascii fun b hmem => by rw [List.eq_of_mem_replicate hmem]; decide, letters, List.map_replicate]
  rfl

theorem frames_letters (n : Nat) : sseFraming.frames (List.replicate n 'a') = ([], List.replicate n 'a') := by
  refine sseFraming.frames_none (splitFrame_none fun hmem => ?_)
  exact absurd (List.eq_of_mem_replicate hmem) (by decide)

theorem frames_blankLine (n : Nat) :
    sseFraming.frames ('\n' :: '\n' :: List.replicate n 'a') = ([[]], List.replicate n 'a') := by
  have hsplit : sseFraming.split ('\n' :: '\n' :: List.replicate n 'a') = some ([], List.replicate n 'a') := rfl
  rw [sseFraming.frames_some hsplit, frames_letters]

theorem tooLarge_letters {n : Nat} : TooLarge (List.replicate n 'a') ↔ maxSseUsageBufferBytes < n := by
  have hsize : utf8Size (List.replicate n 'a') = n := by
    rw [utf8Size, List.map_replicate, List.sum_replicate]
    exact Nat.mul_one n
  rw [TooLarge, hsize]

theorem lossy_blankLine (n : Nat) : lossy (blankLine ++ letters n) = '\n' :: '\n' :: List.replicate n 'a' := by
  rw [blankLine, List.cons_append, lossy_cons, nextChar_ascii (by decide), List.cons_append, lossy_cons,
    nextChar_ascii (by decide), List.nil_append, lossy_letters]
  rfl

theorem not_overlong_together (n : Nat) : ¬ Overlong [blankLine ++ letters n] := by
  have htext : streamText [blankLine ++ letters n] = '\n' :: '\n' :: List.replicate n 'a' := by
    rw [streamText, List.map_singleton, List.flatten_singleton, lossy_blankLine]
  rintro (⟨frame, hmem, hlarge⟩ | ⟨early, chunk, late, hsplit, hnone, -⟩)
  · rw [htext, frames_blankLine] at hmem
    cases List.mem_singleton.mp hmem
    exact absurd hlarge (by decide)
  · cases early with
    | nil =>
      cases hsplit
      rw [List.nil_append, htext, frames_blankLine] at hnone
      have hempty : (sseFraming.frames (streamText [])).1 = [] := by
        rw [streamText, List.map_nil, List.flatten_nil, sseFraming.frames_none rfl]
      rw [hempty] at hnone
      cases hnone
    | cons first early => simp at hsplit

theorem overlong_apart {n : Nat} (h : maxSseUsageBufferBytes < n) : Overlong [blankLine, letters n] := by
  have hearly : streamText [blankLine] = ['\n', '\n'] := by decide
  have htext : streamText ([blankLine] ++ [letters n]) = '\n' :: '\n' :: List.replicate n 'a' := by
    rw [streamText_concat, hearly, lossy_letters]
    rfl
  refine .inr ⟨[blankLine], letters n, [], rfl, ?_, ?_⟩
  · rw [htext, frames_blankLine, hearly]
    exact (congrArg Prod.fst (frames_blankLine 0)).symm
  · rw [htext, frames_blankLine]
    exact tooLarge_letters.mpr h

/-- What is left after the last complete frame is not looked at, so a stream that fails in two
chunks passes in one. -/
theorem late_check : [blankLine ++ letters (maxSseUsageBufferBytes + 1)].flatten =
      [blankLine, letters (maxSseUsageBufferBytes + 1)].flatten ∧
    outcome .written .inserted [blankLine ++ letters (maxSseUsageBufferBytes + 1)] ≠
      outcome .written .inserted [blankLine, letters (maxSseUsageBufferBytes + 1)] := by
  refine ⟨by simp, ?_⟩
  rw [outcome_of_overlong _ _ (overlong_apart (Nat.lt_succ_self _)), outcome_of_not_overlong _ _ (not_overlong_together _)]
  exact nofun

theorem outcome_eq_iff_lines : outcome .written .inserted [[97], [10, 10]] = outcome .written .inserted [[97, 10, 10]] ↔
    (Overlong [[97], [10, 10]] ↔ Overlong [[97, 10, 10]]) :=
  outcome_eq_iff .written .inserted (by decide)

end SseUsageParser

end Llmctl
