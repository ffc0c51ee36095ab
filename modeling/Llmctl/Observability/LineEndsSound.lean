import Llmctl.Observability.SseSound
import Llmctl.Server.SseSound
import Llmctl.Text.LineEnds

/-!
# Streams with the other line end

Both parsers look for two line feeds in a row. A stream whose lines end with a carriage return
and a line feed has none, so they meter nothing of it and keep all of it.
-/

namespace Llmctl.Observability

open Text Client SseUsageParser

/-! ## Frames of any line ends -/

/-- The text with a line feed for every line end. -/
def lineEnds (s : List Char) : List Char := withLf '\r' '\n' false s

/-- The frames of a text and what follows them, whatever ends its lines. -/
def eventFrames (s : List Char) : List (List Char) × List Char := sseFraming.frames (lineEnds s)

/-- The text is a part of one frame, or one frame with its blank line. -/
def WithinFrame (s : List Char) : Prop :=
  (eventFrames s).1 = [] ∨ ((eventFrames s).1.length = 1 ∧ (eventFrames s).2 = [])

theorem lineEnds_append (s t : List Char) :
    lineEnds (s ++ t) = lineEnds s ++ withLf '\r' '\n' (endsCr '\r' false s) t := withLf_append (by decide) false s t

theorem lineEnds_mono {s t : List Char} (h : s <+: t) : lineEnds s <+: lineEnds t := by
  obtain ⟨r, rfl⟩ := h
  rw [lineEnds_append]
  exact List.prefix_append ..

theorem frames_eq_nil {s : List Char} (h : sseFraming.frames s = ([], [])) : s = [] := by
  have htext := sseFraming.frames_text s
  rwa [h] at htext

/-- What begins a text of one frame at most is within a frame. -/
theorem within_of_prefix {s whole : List Char} (hrest : (sseFraming.frames whole).2 = [])
    (hone : (sseFraming.frames whole).1.length ≤ 1) (h : lineEnds s <+: whole) : WithinFrame s := by
  unfold WithinFrame eventFrames
  cases hsplit : sseFraming.split (lineEnds s) with
  | none => exact .inl (by rw [sseFraming.frames_none hsplit])
  | some found =>
    obtain ⟨frame, r⟩ := found
    obtain ⟨t, rfl⟩ := h
    rw [sseFraming.frames_some (sseFraming.stable t hsplit)] at hrest hone
    have hnil : r ++ t = [] := frames_eq_nil (Prod.ext (List.eq_nil_of_length_eq_zero (by simpa using hone)) hrest)
    obtain ⟨rfl, -⟩ := List.append_eq_nil_iff.mp hnil
    rw [sseFraming.frames_some hsplit, sseFraming.frames_none rfl]
    exact .inr ⟨rfl, rfl⟩

theorem withLf_endsCr {s : List Char} (h : endsCr '\r' false s = true) : ∃ t, withLf '\r' '\n' false s = t ++ ['\n'] := by
  cases s using List.reverseRecOn with
  | nil => cases h
  | append_singleton s c =>
    rw [endsCr_append, endsCr, endsCr, decide_eq_true_eq] at h
    subst h
    exact ⟨_, withLf_append (by decide) false s ['\r']⟩

/-- A blank line of line feeds is one whatever comes before it. -/
theorem lineEnds_blank (s : List Char) : ∃ t, lineEnds (s ++ ['\n', '\n']) = t ++ ['\n', '\n'] := by
  rw [lineEnds_append]
  cases h : endsCr '\r' false s with
  | false => exact ⟨lineEnds s, rfl⟩
  | true =>
    obtain ⟨t, ht⟩ := withLf_endsCr h
    refine ⟨t, ?_⟩
    rw [lineEnds, ht, List.append_assoc]
    rfl

theorem splitFrame_blank (s r : List Char) : ∃ found, splitFrame (s ++ '\n' :: '\n' :: r) = some found := by
  induction s with
  | nil => exact ⟨_, rfl⟩
  | cons c s ih =>
    by_cases h : c ≠ '\n' ∨ (s ++ '\n' :: '\n' :: r).head? ≠ some '\n'
    · obtain ⟨found, hfound⟩ := ih
      exact ⟨_, by rw [List.cons_append, splitFrame_cons h, hfound]; rfl⟩
    · obtain ⟨hc, hhead⟩ := not_or.mp h
      obtain ⟨more, hmore⟩ := List.head?_eq_some_iff.mp (not_not.mp hhead)
      rw [List.cons_append, not_not.mp hc, hmore]
      exact ⟨_, rfl⟩

/-- What a parser keeps after the frames of a text of one frame at most. -/
theorem within_rest {s whole : List Char} (hrest : (sseFraming.frames whole).2 = [])
    (hone : (sseFraming.frames whole).1.length ≤ 1) (h : lineEnds s <+: whole) :
    WithinFrame (sseFraming.frames s).2 := by
  have htext := sseFraming.frames_text s
  cases hframes : (sseFraming.frames s).1 using List.reverseRecOn with
  | nil =>
    rw [hframes, List.flatMap_nil, List.nil_append] at htext
    rw [← htext]
    exact within_of_prefix hrest hone h
  | append_singleton frames frame =>
    have hend : ∃ front, s = front ++ ['\n', '\n'] ++ (sseFraming.frames s).2 := by
      rw [hframes, List.flatMap_append, List.flatMap_singleton] at htext
      exact ⟨frames.flatMap (· ++ sseFraming.stop) ++ frame, by rw [List.append_assoc _ frame]; exact htext⟩
    obtain ⟨front, hs⟩ := hend
    obtain ⟨t, ht⟩ := lineEnds_blank front
    have hlf : endsCr '\r' false (front ++ ['\n', '\n']) = false := endsCr_append ..
    have hends : lineEnds s = t ++ '\n' :: '\n' :: lineEnds (sseFraming.frames s).2 := by
      conv_lhs => rw [hs, lineEnds_append, hlf, ht, List.append_assoc]
      rfl
    obtain ⟨⟨found, r⟩, hfound⟩ := splitFrame_blank t []
    obtain ⟨more, hmore⟩ := h
    have hwhole : whole = t ++ ['\n', '\n'] ++ (lineEnds (sseFraming.frames s).2 ++ more) := by
      rw [← hmore, hends]
      simp
    have hsplit : sseFraming.split whole = some (found, r ++ (lineEnds (sseFraming.frames s).2 ++ more)) :=
      hwhole ▸ splitFrame_stable _ hfound
    rw [sseFraming.frames_some hsplit] at hrest hone
    have hnil := frames_eq_nil (Prod.ext (List.eq_nil_of_length_eq_zero (by simpa using hone)) hrest)
    have hkept : lineEnds (sseFraming.frames s).2 = [] :=
      (List.append_eq_nil_iff.mp (List.append_eq_nil_iff.mp hnil).2).1
    refine .inl ?_
    rw [eventFrames, hkept, sseFraming.frames_none rfl]

/-! ## A carriage return in every line end -/

theorem withCr_head (s : List Char) : (withCr '\r' '\n' false s).head? ≠ some '\n' := by
  cases s with
  | nil => simp [withCr]
  | cons c s =>
    rw [withCr]
    split
    · simp
    · rename_i hnot
      intro hhead
      exact hnot ⟨Option.some.inj hhead, rfl⟩

/-- No two line feeds follow each other. -/
theorem splitFrame_withCr (after : Bool) (s : List Char) : splitFrame (withCr '\r' '\n' after s) = none := by
  induction s generalizing after with
  | nil => rfl
  | cons c s ih =>
    rw [withCr]
    split
    · rw [splitFrame_cons (.inl (by decide)), splitFrame_cons (.inr (withCr_head s)), ih]
      rfl
    · by_cases hlf : c = '\n'
      · subst hlf
        have hcr : decide ('\n' = '\r') = false := by decide
        rw [hcr, splitFrame_cons (.inr (withCr_head s)), ih]
        rfl
      · rw [splitFrame_cons (.inl hlf), ih]
        rfl

/-- The chunks of a stream with CRLF for every LF line end. -/
def crlf (chunks : List (List UInt8)) : List (List UInt8) := withCrPieces 13 10 false chunks

theorem streamText_withCrPieces (after : Bool) (chunks : List (List UInt8)) :
    streamText (withCrPieces 13 10 after chunks) = withCr '\r' '\n' after (streamText chunks) := by
  induction chunks generalizing after with
  | nil => rfl
  | cons chunk chunks ih =>
    obtain ⟨hlossy, hends⟩ := lossy_withCr after chunk
    have hcons : ∀ (c : List UInt8) cs, streamText (c :: cs) = lossy c ++ streamText cs := fun _ _ => rfl
    rw [withCrPieces, hcons, hcons, ih, hlossy, withCr_append (by decide), hends]

theorem streamText_crlf (chunks : List (List UInt8)) :
    streamText (crlf chunks) = withCr '\r' '\n' false (streamText chunks) := streamText_withCrPieces false chunks

/-! ## A stream without a complete frame -/

theorem streamText_mono {early chunks : List (List UInt8)} (h : early <+: chunks) : streamText early <+: streamText chunks := by
  obtain ⟨late, rfl⟩ := h
  refine ⟨streamText late, ?_⟩
  simp [SseUsageParser.streamText]

theorem utf8Size_mono {s t : List Char} (h : s <+: t) : utf8Size s ≤ utf8Size t := by
  obtain ⟨r, rfl⟩ := h
  rw [utf8Size, utf8Size, List.map_append, List.sum_append]
  exact Nat.le_add_right ..

theorem frames_of_start {s t : List Char} (h : s <+: t) (hnone : splitFrame t = none) : sseFraming.frames s = ([], s) := by
  refine sseFraming.frames_none ?_
  obtain ⟨r, rfl⟩ := h
  cases hsplit : splitFrame s with
  | none => exact hsplit
  | some found =>
    rw [splitFrame_stable r hsplit] at hnone
    cases hnone

/-- The last push fails on what the parser has kept. -/
theorem overlong_iff {chunks : List (List UInt8)} (hnone : splitFrame (streamText chunks) = none) :
    Overlong chunks ↔ TooLarge (streamText chunks) := by
  have hframes : ∀ early, early <+: chunks → sseFraming.frames (streamText early) = ([], streamText early) :=
    fun early hprefix => frames_of_start (streamText_mono hprefix) hnone
  constructor
  · rintro (⟨frame, hmem, -⟩ | ⟨early, chunk, late, rfl, -, hlarge⟩)
    · rw [hframes chunks (List.prefix_refl _)] at hmem
      cases hmem
    · have hprefix : early ++ [chunk] <+: early ++ chunk :: late := ⟨late, by simp⟩
      rw [hframes _ hprefix] at hlarge
      exact Nat.lt_of_lt_of_le hlarge (utf8Size_mono (streamText_mono hprefix))
  · intro hlarge
    cases chunks using List.reverseRecOn with
    | nil => exact absurd hlarge (by decide)
    | append_singleton chunks chunk =>
      refine .inr ⟨chunks, chunk, [], rfl, ?_, ?_⟩
      · rw [hframes _ (List.prefix_refl _), hframes _ (List.prefix_append ..)]
      · rw [hframes _ (List.prefix_refl _)]
        exact hlarge

/-! ## Deltas that are not counted -/

/-- Every delta completes the tag that the parser looks for. -/
def TagsOnly : Bool → List Char → List (List Char) → Prop
  | _, _, [] => True
  | inside, tail, delta :: deltas =>
    thinkTags.tag inside <:+: tail ++ delta ∧ TagsOnly (!inside) ((tail ++ delta).rtake tagTailLen) deltas

namespace SseContentParser

def counts (p : SseContentParser) : Nat × Nat := (p.outputDeltas, p.thinkingDeltas)

def total (p : SseContentParser) : Nat := p.outputDeltas + p.thinkingDeltas

theorem total_feed_le (p : SseContentParser) (deltas : List (List Char)) : p.total ≤ (p.feed deltas).total := by
  induction deltas generalizing p with
  | nil => exact Nat.le_refl _
  | cons delta deltas ih =>
    refine Nat.le_trans ?_ (ih (p.classifyDelta delta))
    obtain ⟨inside, hphase⟩ := p.exists_inside
    by_cases h : thinkTags.tag inside <:+: p.tagTail ++ delta
    · rw [classifyDelta_turn hphase h]
      exact Nat.le_refl _
    · rw [classifyDelta_count hphase h]
      cases inside <;> simp only [total, Bool.false_eq_true, if_false, if_true] <;> omega

theorem total_feed_iff (inside : Bool) {p : SseContentParser} (hphase : p.phase = .ofInside inside) (deltas : List (List Char)) :
    (p.feed deltas).total = p.total ↔ TagsOnly inside p.tagTail deltas := by
  induction deltas generalizing p inside with
  | nil => exact ⟨fun _ => trivial, fun _ => rfl⟩
  | cons delta deltas ih =>
    have hcons : p.feed (delta :: deltas) = (p.classifyDelta delta).feed deltas := rfl
    rw [hcons, TagsOnly]
    by_cases h : thinkTags.tag inside <:+: p.tagTail ++ delta
    · have hturn := classifyDelta_turn hphase h
      have hnext : (p.classifyDelta delta).phase = .ofInside (!inside) := by rw [hturn]
      have hrest := ih (!inside) hnext
      rw [hturn] at hrest
      rw [hturn, and_iff_right h]
      exact hrest
    · refine ⟨fun htotal => absurd htotal (Nat.ne_of_gt ?_), fun hall => absurd hall.1 h⟩
      refine Nat.lt_of_lt_of_le ?_ (total_feed_le _ deltas)
      rw [classifyDelta_count hphase h]
      cases inside <;> simp only [total, Bool.false_eq_true, if_false, if_true] <;> omega

theorem counts_feed_iff (deltas : List (List Char)) : (feed {} deltas).counts = (0, 0) ↔ TagsOnly false [] deltas := by
  have htotal : (feed {} deltas).total = 0 ↔ TagsOnly false [] deltas := total_feed_iff false rfl deltas
  rw [← htotal, counts, total, Prod.mk.injEq]
  omega

end SseContentParser

/-! ## Frames that report no usage -/

section
variable (numbers : Numbers) (order : FieldOrder)

/-- The data of the lines of a frame, as the usage parser reads them. -/
def usageData (frame : List Char) : List String :=
  let data := ((String.ofList frame).splitOn "\n").filterMap fun line =>
    let line := String.ofList (line.toList.dropWhile isWhitespace)
    if line.startsWith "data:" then some (trim (String.ofList (line.toList.drop 5))) else none
  data.filter fun d => !d.isEmpty && d != "[DONE]"

/-- No data of the frame reports a token. -/
def Unmetered (frame : List Char) : Prop :=
  ∀ data ∈ usageData frame, ∀ used, dataUsage numbers order data = some used → used = (0, 0)

theorem addUsage_eq_zero {a b : Nat × Nat} : addUsage a b = (0, 0) ↔ a = (0, 0) ∧ b = (0, 0) := by
  obtain ⟨a₁, a₂⟩ := a
  obtain ⟨b₁, b₂⟩ := b
  simp only [addUsage, saturatingAdd, Prod.mk.injEq]
  omega

theorem foldl_addUsage_eq_zero (total : Nat × Nat) (usages : List (Nat × Nat)) :
    usages.foldl addUsage total = (0, 0) ↔ total = (0, 0) ∧ ∀ used ∈ usages, used = (0, 0) := by
  induction usages generalizing total with
  | nil => simp
  | cons used usages ih => simp only [List.foldl_cons, ih, addUsage_eq_zero, and_assoc, List.forall_mem_cons]

theorem frameUsage_eq_zero (frame : List Char) :
    sseFrameUsageTokens (dataUsage numbers order) (String.ofList frame) = (0, 0) ↔ Unmetered numbers order frame := by
  have hfold : sseFrameUsageTokens (dataUsage numbers order) (String.ofList frame) =
      ((usageData frame).filterMap (dataUsage numbers order)).foldl addUsage (0, 0) := rfl
  rw [hfold, foldl_addUsage_eq_zero, and_iff_right rfl, Unmetered]
  simp only [List.mem_filterMap, forall_exists_index, and_imp]
  exact ⟨fun h data hdata used hused => h used data hdata hused, fun h used data hdata hused => h data hdata used hused⟩

theorem framesUsage_eq_zero (frames : List (List Char)) :
    framesUsage numbers order (0, 0) frames = (0, 0) ↔ ∀ frame ∈ frames, Unmetered numbers order frame := by
  have hmap : framesUsage numbers order (0, 0) frames =
      (frames.map fun frame => sseFrameUsageTokens (dataUsage numbers order) (String.ofList frame)).foldl addUsage (0, 0) :=
    List.foldl_map.symm
  rw [hmap, foldl_addUsage_eq_zero, and_iff_right rfl, List.forall_mem_map]
  exact forall₂_congr fun frame _ => frameUsage_eq_zero numbers order frame

/-! ## Both line ends -/

/-- The content parser after the chunks. -/
def contentRun (chunks : List (List UInt8)) : SseContentParser :=
  chunks.foldl (SseContentParser.push numbers order) {}

/-- After every chunk the parsers keep one frame at most. -/
def Bounded (chunks : List (List UInt8)) : Prop :=
  ∀ early, early <+: chunks →
    (∀ st, pushAll numbers order early = .ok st → WithinFrame st.1) ∧ WithinFrame (contentRun numbers order early).buffer

/-- The stream is metered the same with either line end, and no buffer outgrows a frame. -/
structure MeteredAlike (chunks : List (List UInt8)) : Prop where
  outcome_eq : outcome numbers order (crlf chunks) = outcome numbers order chunks
  counts_eq : (contentRun numbers order (crlf chunks)).counts = (contentRun numbers order chunks).counts
  bounded : Bounded numbers order chunks
  bounded_crlf : Bounded numbers order (crlf chunks)

theorem contentRun_counts (chunks : List (List UInt8)) : (contentRun numbers order chunks).counts =
    (SseContentParser.feed {} (SseContentParser.framesDeltas numbers order (sseFraming.frames (streamText chunks)).1)).counts := by
  rw [contentRun, SseContentParser.foldl_push]
  rfl

theorem contentRun_buffer (chunks : List (List UInt8)) :
    (contentRun numbers order chunks).buffer = (sseFraming.frames (streamText chunks)).2 := by
  rw [contentRun, SseContentParser.foldl_push]
  rfl

theorem pushAll_buffer {chunks : List (List UInt8)} {st : List Char × (Nat × Nat)}
    (h : pushAll numbers order chunks = .ok st) : st.1 = (sseFraming.frames (streamText chunks)).2 := by
  by_cases hlong : Overlong chunks
  · rw [(pushAll_eq numbers order chunks).1 hlong] at h
    cases h
  · rw [(pushAll_eq numbers order chunks).2 hlong] at h
    cases h
    rfl

theorem bounded_of_one {chunks : List (List UInt8)} (hrest : (eventFrames (streamText chunks)).2 = [])
    (hone : (eventFrames (streamText chunks)).1.length ≤ 1) : Bounded numbers order chunks := by
  intro early hearly
  have hkept : WithinFrame (sseFraming.frames (streamText early)).2 :=
    within_rest hrest hone (lineEnds_mono (streamText_mono hearly))
  refine ⟨fun st hst => ?_, ?_⟩
  · rwa [pushAll_buffer numbers order hst]
  · rwa [contentRun_buffer]

theorem frames_crlf (chunks : List (List UInt8)) :
    sseFraming.frames (streamText (crlf chunks)) = ([], streamText (crlf chunks)) := by
  refine sseFraming.frames_none ?_
  rw [streamText_crlf]
  exact splitFrame_withCr false (streamText chunks)

theorem eventFrames_crlf (chunks : List (List UInt8)) : eventFrames (streamText (crlf chunks)) = eventFrames (streamText chunks) := by
  rw [eventFrames, lineEnds, streamText_crlf, withLf_withCr (by decide)]
  rfl

/-- The parsers keep all of a stream with CRLF line ends. -/
theorem bounded_crlf_iff {chunks : List (List UInt8)} (hrest : (eventFrames (streamText chunks)).2 = []) :
    Bounded numbers order (crlf chunks) ↔ (eventFrames (streamText chunks)).1.length ≤ 1 := by
  constructor
  · intro h
    have hwhole := (h (crlf chunks) (List.prefix_refl _)).2
    rw [contentRun_buffer, frames_crlf, WithinFrame, eventFrames_crlf] at hwhole
    rcases hwhole with hnone | ⟨hone, -⟩
    · simp [hnone]
    · exact Nat.le_of_eq hone
  · intro hone
    refine bounded_of_one numbers order ?_ ?_
    · rwa [eventFrames_crlf]
    · rwa [eventFrames_crlf]

theorem overlong_crlf_iff (chunks : List (List UInt8)) :
    Overlong (crlf chunks) ↔ TooLarge (withCr '\r' '\n' false (streamText chunks)) := by
  have hnone : splitFrame (streamText (crlf chunks)) = none := by
    rw [streamText_crlf]
    exact splitFrame_withCr false (streamText chunks)
  rw [overlong_iff hnone, streamText_crlf]

theorem outcome_crlf {chunks : List (List UInt8)} (h : ¬ Overlong (crlf chunks)) :
    outcome numbers order (crlf chunks) = .ok (0, 0) := by
  rw [outcome_of_not_overlong numbers order h, frames_crlf]
  rfl

/-- No usage is reported with CRLF line ends, so there must be none to report. -/
theorem outcome_crlf_eq_iff (chunks : List (List UInt8)) :
    outcome numbers order (crlf chunks) = outcome numbers order chunks ↔
      (Overlong chunks ↔ TooLarge (withCr '\r' '\n' false (streamText chunks))) ∧
      (¬ Overlong chunks → ∀ frame ∈ (sseFraming.frames (streamText chunks)).1, Unmetered numbers order frame) := by
  rw [← overlong_crlf_iff]
  by_cases hlong : Overlong chunks <;> by_cases hcrlf : Overlong (crlf chunks)
  · simp [outcome_of_overlong numbers order hlong, outcome_of_overlong numbers order hcrlf, hlong, hcrlf]
  · simp [outcome_of_overlong numbers order hlong, outcome_crlf numbers order hcrlf, hlong, hcrlf]
  · simp [outcome_of_overlong numbers order hcrlf, outcome_of_not_overlong numbers order hlong, hlong, hcrlf]
  · rw [outcome_crlf numbers order hcrlf, outcome_of_not_overlong numbers order hlong, ← framesUsage_eq_zero]
    simp only [hlong, hcrlf, not_false_eq_true, forall_const, true_and, Except.ok.injEq]
    exact eq_comm

theorem counts_crlf_eq_iff (chunks : List (List UInt8)) :
    (contentRun numbers order (crlf chunks)).counts = (contentRun numbers order chunks).counts ↔
      TagsOnly false [] (SseContentParser.framesDeltas numbers order (sseFraming.frames (streamText chunks)).1) := by
  have hzero : (contentRun numbers order (crlf chunks)).counts = (0, 0) := by
    rw [contentRun_counts, frames_crlf]
    rfl
  rw [hzero, contentRun_counts, ← SseContentParser.counts_feed_iff]
  exact eq_comm

/-- A stream of frames that end in a blank line is metered the same with either line end just where
it has one frame at most and nothing in it is metered. -/
theorem meteredAlike_iff {chunks : List (List UInt8)} (hrest : (eventFrames (streamText chunks)).2 = []) :
    MeteredAlike numbers order chunks ↔
      (eventFrames (streamText chunks)).1.length ≤ 1 ∧
      (Overlong chunks ↔ TooLarge (withCr '\r' '\n' false (streamText chunks))) ∧
      (¬ Overlong chunks → ∀ frame ∈ (sseFraming.frames (streamText chunks)).1, Unmetered numbers order frame) ∧
      TagsOnly false [] (SseContentParser.framesDeltas numbers order (sseFraming.frames (streamText chunks)).1) := by
  constructor
  · intro h
    obtain ⟨hlong, hunmetered⟩ := (outcome_crlf_eq_iff numbers order chunks).mp h.outcome_eq
    exact ⟨(bounded_crlf_iff numbers order hrest).mp h.bounded_crlf, hlong, hunmetered,
      (counts_crlf_eq_iff numbers order chunks).mp h.counts_eq⟩
  · rintro ⟨hone, hlong, hunmetered, htags⟩
    exact {
      outcome_eq := (outcome_crlf_eq_iff numbers order chunks).mpr ⟨hlong, hunmetered⟩
      counts_eq := (counts_crlf_eq_iff numbers order chunks).mpr htags
      bounded := bounded_of_one numbers order hrest hone
      bounded_crlf := (bounded_crlf_iff numbers order hrest).mpr hone }

end

/-- The bytes of an ASCII text. -/
def asciiBytes (s : String) : List UInt8 := s.toList.map fun c => UInt8.ofNat c.toNat

/-- A comment, as a server sends one to keep a connection open. -/
def ping : List (List UInt8) := [asciiBytes ": ping\n\n"]

theorem meteredAlike_iff_ping : MeteredAlike .written .inserted ping ↔
      (eventFrames (streamText ping)).1.length ≤ 1 ∧
      (Overlong ping ↔ TooLarge (withCr '\r' '\n' false (streamText ping))) ∧
      (¬ Overlong ping → ∀ frame ∈ (sseFraming.frames (streamText ping)).1, Unmetered .written .inserted frame) ∧
      TagsOnly false [] (SseContentParser.framesDeltas .written .inserted (sseFraming.frames (streamText ping)).1) :=
  meteredAlike_iff .written .inserted (by decide +kernel)

def delta : List UInt8 := asciiBytes "data: \x7b\"choices\":[\x7b\"delta\":\x7b\"content\":\"a\"\x7d\x7d]\x7d\n\n"

/-- Two deltas are counted with one line end; with the other none is, and both are kept. -/
theorem other_line_end : (eventFrames (streamText [delta, delta])).2 = [] ∧
    (contentRun .written .inserted [delta, delta]).outputDeltas = 2 ∧
    (contentRun .written .inserted (crlf [delta, delta])).outputDeltas = 0 ∧
    ¬ WithinFrame (contentRun .written .inserted (crlf [delta, delta])).buffer ∧
    ¬ MeteredAlike .written .inserted [delta, delta] := by
  have hlf : (contentRun .written .inserted [delta, delta]).outputDeltas = 2 := by decide +kernel
  have hcrlf : (contentRun .written .inserted (crlf [delta, delta])).outputDeltas = 0 := by decide +kernel
  have hkept : (eventFrames (contentRun .written .inserted (crlf [delta, delta])).buffer).1.length = 2 := by decide +kernel
  refine ⟨by decide +kernel, hlf, hcrlf, ?_, fun h => ?_⟩
  · rintro (hnone | ⟨hone, -⟩)
    · rw [hnone] at hkept
      cases hkept
    · rw [hone] at hkept
      cases hkept
  · have hcounts := congrArg Prod.fst h.counts_eq
    rw [SseContentParser.counts, SseContentParser.counts, hlf, hcrlf] at hcounts
    cases hcounts

end Llmctl.Observability
