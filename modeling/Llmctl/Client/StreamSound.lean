import Llmctl.Client.EventsSound
import Mathlib.Data.List.TakeWhile

/-!
# What a client yields of a native stream

The client reads the stream as the server wrote it, however the network cut its bytes, as
long as no chunk ends inside a character: each chunk is decoded by itself.
-/

namespace Llmctl.Client

open Text Value

/-! ## The buffer -/

section
variable (jsonError : List Char → String) (utf8Error : ByteArray → String)

theorem drainEvents_eq : ∀ (fuel : Nat) {buffer : List Char}, buffer.length ≤ fuel →
    drainEvents jsonError fuel buffer =
      ((readAll (decodeSseEvent jsonError) (sseFraming.frames buffer).1).1,
        if (readAll (decodeSseEvent jsonError) (sseFraming.frames buffer).1).2 then none
        else some (sseFraming.frames buffer).2)
  | 0, buffer, h => by
    obtain rfl : buffer = [] := List.length_eq_zero_iff.mp (Nat.le_zero.mp h)
    have hnone : sseFraming.frames [] = ([], []) := sseFraming.frames_none rfl
    rw [hnone]
    rfl
  | fuel + 1, buffer, h => by
    unfold drainEvents
    cases hsplit : splitFrame buffer with
    | none =>
      have hnone : sseFraming.frames buffer = ([], buffer) := sseFraming.frames_none hsplit
      rw [hnone]
      rfl
    | some fr =>
      obtain ⟨f, r⟩ := fr
      have hlt : r.length < buffer.length := sseFraming.shorter hsplit
      have hsome : sseFraming.frames buffer = (f :: (sseFraming.frames r).1, (sseFraming.frames r).2) :=
        sseFraming.frames_some hsplit
      rw [hsome]
      cases hdecode : decodeSseEvent jsonError f with
      | error e =>
        rw [readAll_error hdecode]
        simp [hdecode]
      | ok chunk =>
        rw [readAll_ok hdecode]
        simp only [hdecode, drainEvents_eq fuel (Nat.le_of_lt_succ (Nat.lt_of_lt_of_le hlt h))]

end

/-! ## Chunks of the network -/

section
variable (jsonError : List Char → String) (utf8Error : ByteArray → String)

theorem fromUTF8_toUTF8 (text : String) : String.fromUTF8? text.toUTF8 = some text := by
  have hvalid : text.toUTF8.IsValidUTF8 := text.isValidUTF8
  unfold String.fromUTF8?
  rw [dif_pos hvalid]
  rfl

/-- What the client reads from the texts of some chunks does not depend on how they were cut. -/
theorem chatStream_texts (texts : List String) (chunks : List (Except LlmctlError ByteArray)) {buffer : List Char}
    (hbuffer : sseFraming.frames buffer = ([], buffer)) :
    chatStream jsonError utf8Error buffer (texts.map (fun text => .ok text.toUTF8) ++ chunks) =
      let read := sseFraming.frames (buffer ++ (String.join texts).toList)
      if (readAll (decodeSseEvent jsonError) read.1).2 then (readAll (decodeSseEvent jsonError) read.1).1
      else (readAll (decodeSseEvent jsonError) read.1).1 ++ chatStream jsonError utf8Error read.2 chunks := by
  induction texts generalizing buffer with
  | nil => simp [hbuffer, readAll]
  | cons text texts ih =>
    have hrest := sseFraming.frames_rest (buffer ++ text.toList)
    have happend := sseFraming.frames_append (buffer ++ text.toList) (String.join texts).toList
    have hjoin : (String.join (text :: texts)).toList = text.toList ++ (String.join texts).toList := by
      simp
    simp only [List.map_cons, List.cons_append]
    rw [chatStream, fromUTF8_toUTF8, hjoin, ← List.append_assoc, happend]
    simp only
    rw [drainEvents_eq jsonError _ (Nat.le_refl _)]
    cases hfailed : (readAll (decodeSseEvent jsonError) (sseFraming.frames (buffer ++ text.toList)).1).2 with
    | true =>
      rw [readAll_append_of_error hfailed]
      simp [hfailed]
    | false =>
      rw [readAll_append_of_ok hfailed]
      simp only [Bool.false_eq_true, if_false, ih hrest]
      split <;> simp only [List.append_assoc]

end

/-! ## Chunks and texts -/

def joined : List ByteArray → ByteArray
  | [] => ByteArray.empty
  | chunk :: chunks => chunk ++ joined chunks

theorem joined_append (chunks chunks' : List ByteArray) : joined (chunks ++ chunks') = joined chunks ++ joined chunks' := by
  induction chunks with
  | nil => simp [joined]
  | cons chunk chunks ih => simp [joined, ih, ByteArray.append_assoc]

theorem joined_texts (texts : List String) : joined (texts.map String.toUTF8) = (String.join texts).toUTF8 := by
  induction texts with
  | nil => rfl
  | cons text texts ih =>
    rw [List.map_cons, joined, ih]
    simp [String.join_cons]

theorem texts_of_valid {chunks : List ByteArray} (h : ∀ chunk ∈ chunks, chunk.IsValidUTF8) :
    ∃ texts : List String, chunks = texts.map String.toUTF8 := by
  induction chunks with
  | nil => exact ⟨[], rfl⟩
  | cons chunk chunks ih =>
    obtain ⟨hchunk, hchunks⟩ := List.forall_mem_cons.mp h
    obtain ⟨texts, rfl⟩ := ih hchunks
    exact ⟨String.fromUTF8 chunk hchunk :: texts, rfl⟩

/-- Where a text's bytes begin with another's, so does the text. -/
theorem prefix_of_bytes {text front : String} {rest : ByteArray} (h : front.toUTF8 ++ rest = text.toUTF8) :
    front.toList <+: text.toList := by
  simp only [String.toUTF8_eq_toByteArray, ← String.utf8Encode_toList] at h
  exact List.isPrefix_of_utf8Encode_append_eq_utf8Encode rest h

/-! ## What the client yields -/

/-- One chunk for each delta with the delta as its content, and then the chunk with the
finish reason or an error. -/
def Relays (deltas : List String) (outcome : NativeStreamOutcome) (items : List Item) : Prop :=
  ∃ chunks : List ChatCompletionChunk,
    chunks.map (fun chunk => chunk.choices.map (·.delta.content)) = deltas.map (fun delta => [some delta]) ∧
      match outcome with
      | .done finishReason => ∃ last : ChatCompletionChunk,
        last.choices.map (·.finishReason) = [some finishReason] ∧ items = chunks.map .ok ++ [.ok last]
      | .failed => ∃ e, items = chunks.map .ok ++ [.error e]

theorem frames_nil : sseFraming.frames [] = ([], []) := sseFraming.frames_none rfl

/-- What begins a list of events gives the first of them. -/
theorem frames_prefix {bodies : List (List Char)} (h : ∀ body ∈ bodies, '\n' ∉ body) {front : List Char}
    (hfront : front <+: bodies.flatMap (· ++ ['\n', '\n'])) : (sseFraming.frames front).1 <+: bodies := by
  obtain ⟨rest, hrest⟩ := hfront
  have happend := congrArg Prod.fst (sseFraming.frames_append front rest)
  have hall := congrArg Prod.fst (frames_events h [])
  rw [frames_nil, List.append_nil, List.append_nil] at hall
  rw [hrest, hall] at happend
  exact ⟨_, happend.symm⟩

/-- A text whose frames are all of some events' has the events' text. -/
theorem prefix_of_frames {bodies : List (List Char)} {front : List Char}
    (h : bodies <+: (sseFraming.frames front).1) : bodies.flatMap (· ++ ['\n', '\n']) <+: front := by
  obtain ⟨more, hmore⟩ := h
  have htext := sseFraming.frames_text front
  rw [← hmore, List.flatMap_append, List.append_assoc] at htext
  exact ⟨_, htext.symm⟩

theorem error_of_readAll {decode : List Char → Except LlmctlError (Option ChatCompletionChunk)} {bodies : List (List Char)}
    (h : (readAll decode bodies).2 = true) : ∃ e, .error e ∈ (readAll decode bodies).1 := by
  induction bodies with
  | nil => cases h
  | cons body bodies ih =>
    cases hbody : decode body with
    | error e => exact ⟨e, by simp [readAll_error hbody]⟩
    | ok item =>
      rw [readAll_ok hbody] at h ⊢
      obtain ⟨e, he⟩ := ih h
      exact ⟨e, List.mem_append_right _ he⟩

section
variable (order : MapOrder) (requestId model : String) (now : Nat → Int64)
variable (jsonError : List Char → String) (utf8Error : ByteArray → String)

theorem deltaBodies_newline (sent : Nat) (deltas : List String) :
    ∀ body ∈ deltaBodies order requestId model now sent deltas, '\n' ∉ body := by
  induction deltas generalizing sent with
  | nil => exact nofun
  | cons delta deltas ih =>
    exact List.forall_mem_cons.mpr ⟨eventBody_newline (deltaChunk_integral order requestId model now sent delta), ih (sent + 1)⟩

theorem closingBodies_newline (sent : Nat) (outcome : NativeStreamOutcome) :
    ∀ body ∈ closingBodies order requestId model now sent outcome, '\n' ∉ body := by
  have hfinish := fun finishReason =>
    eventBody_newline (finishChunk_integral order requestId model now sent finishReason)
  have hdone : '\n' ∉ "data: [DONE]".toList := by decide
  intro body hbody
  cases outcome with
  | done finishReason =>
    simp only [closingBodies, List.nil_append, List.mem_cons, List.not_mem_nil, or_false] at hbody
    rcases hbody with rfl | rfl
    · exact hfinish _
    · exact hdone
  | failed =>
    simp only [closingBodies, List.cons_append, List.nil_append, List.mem_cons, List.not_mem_nil, or_false] at hbody
    rcases hbody with rfl | rfl | rfl
    · exact eventBody_newline (errorChunk_integral order requestId)
    · exact hfinish _
    · exact hdone

theorem readAll_done (sent : Nat) (finishReason : String) :
    readAll (decodeSseEvent jsonError) (closingBodies order requestId model now sent (.done finishReason)) =
      ([.ok (finishItem requestId model now sent finishReason)], false) := by
  simp only [closingBodies, List.nil_append]
  rw [readAll_ok (decode_finish order requestId model now jsonError sent finishReason), readAll_ok (decodeSseEvent_done jsonError)]
  rfl

theorem deltaItems_contents (sent : Nat) (deltas : List String) :
    (deltaItems requestId model now sent deltas).map (fun chunk => chunk.choices.map (·.delta.content)) =
      deltas.map fun delta => [some delta] := by
  induction deltas generalizing sent with
  | nil => rfl
  | cons delta deltas ih =>
    rw [deltaItems, List.map_cons, ih]
    rfl

theorem deltaItems_length (sent : Nat) (deltas : List String) :
    (deltaItems requestId model now sent deltas).length = deltas.length := by
  induction deltas generalizing sent with
  | nil => rfl
  | cons delta deltas ih => rw [deltaItems, List.length_cons, ih, List.length_cons]

theorem deltaBodies_length (sent : Nat) (deltas : List String) :
    (deltaBodies order requestId model now sent deltas).length = deltas.length := by
  induction deltas generalizing sent with
  | nil => rfl
  | cons delta deltas ih => rw [deltaBodies, List.length_cons, ih, List.length_cons]

theorem deltaBodies_take (k sent : Nat) (deltas : List String) :
    (deltaBodies order requestId model now sent deltas).take k = deltaBodies order requestId model now sent (deltas.take k) := by
  induction deltas generalizing k sent with
  | nil => simp [deltaBodies]
  | cons delta deltas ih =>
    cases k with
    | zero => rfl
    | succ k => rw [deltaBodies, List.take_succ_cons, ih, List.take_succ_cons, deltaBodies]

/-- The items of the frames read so far, and what follows unless one failed. -/
def readThen (front : List Char) (items : List Char → List Item) : List Item :=
  let read := sseFraming.frames front
  if (readAll (decodeSseEvent jsonError) read.1).2 then (readAll (decodeSseEvent jsonError) read.1).1
  else (readAll (decodeSseEvent jsonError) read.1).1 ++ items read.2

/-- The whole text of a stream. -/
def streamText (deltas : List String) (outcome : NativeStreamOutcome) : List Char :=
  (deltaBodies order requestId model now 0 deltas).flatMap (· ++ ['\n', '\n']) ++
    (closingBodies order requestId model now deltas.length outcome).flatMap (· ++ ['\n', '\n'])

/-- After the deltas' events come the items of those that close the stream. -/
theorem readThen_deltas (deltas : List String) (rest : List Char) (items : List Char → List Item) :
    readThen jsonError ((deltaBodies order requestId model now 0 deltas).flatMap (· ++ ['\n', '\n']) ++ rest) items =
      (deltaItems requestId model now 0 deltas).map .ok ++ readThen jsonError rest items := by
  have hdeltas := readAll_deltas order requestId model now jsonError 0 deltas
  have happend := @readAll_append_of_ok _ _ _ (decodeSseEvent jsonError) _ (congrArg Prod.snd hdeltas)
    (sseFraming.frames rest).1
  unfold readThen
  rw [frames_events (deltaBodies_newline order requestId model now 0 deltas)]
  simp only [happend, hdeltas]
  split <;> simp only [List.append_assoc]

theorem relays_whole (deltas : List String) (outcome : NativeStreamOutcome) :
    Relays deltas outcome (readThen jsonError (streamText order requestId model now deltas outcome)
      fun buffer => chatStream jsonError utf8Error buffer []) := by
  refine ⟨deltaItems requestId model now 0 deltas, deltaItems_contents requestId model now 0 deltas, ?_⟩
  have hclosing := frames_events (closingBodies_newline order requestId model now deltas.length outcome) []
  rw [frames_nil, List.append_nil, List.append_nil] at hclosing
  rw [streamText, readThen_deltas]
  unfold readThen
  rw [hclosing]
  cases outcome with
  | done finishReason =>
    refine ⟨finishItem requestId model now deltas.length finishReason, rfl, ?_⟩
    simp only [readAll_done]
    rfl
  | failed =>
    obtain ⟨e, he⟩ := decode_error order requestId jsonError
    refine ⟨e, ?_⟩
    simp only [closingBodies, List.cons_append, readAll_error he]
    rfl

theorem readThen_error (front : List Char) (e : LlmctlError) :
    ∃ e', .error e' ∈ readThen jsonError front fun _ => [.error e] := by
  unfold readThen
  simp only
  split
  · rename_i h
    exact error_of_readAll h
  · exact ⟨e, List.mem_append_right _ (List.mem_singleton_self _)⟩

/-- Where the deltas' events are not all there, fewer items come before the error. -/
theorem readThen_short {deltas : List String} {front : List Char} (e : LlmctlError)
    (hframes : (sseFraming.frames front).1 <+: deltaBodies order requestId model now 0 deltas)
    (hshort : (sseFraming.frames front).1 ≠ deltaBodies order requestId model now 0 deltas) :
    (readThen jsonError front fun _ => [.error e]).length ≤ deltas.length := by
  have htake := List.prefix_iff_eq_take.mp hframes
  have hlen := hframes.length_le
  have hne : (sseFraming.frames front).1.length ≠ (deltaBodies order requestId model now 0 deltas).length :=
    fun heq => hshort (hframes.eq_of_length heq)
  rw [deltaBodies_length] at hlen hne
  rw [deltaBodies_take] at htake
  have hread := readAll_deltas order requestId model now jsonError 0 (deltas.take (sseFraming.frames front).1.length)
  rw [← htake] at hread
  unfold readThen
  simp only [hread, Bool.false_eq_true, if_false, List.length_append, List.length_map, deltaItems_length, List.length_take,
    List.length_singleton]
  omega

/-- Where a chunk does not decode, the client ends as the stream did only after a failure,
and only if it has read the deltas. -/
theorem relays_cut {deltas : List String} {outcome : NativeStreamOutcome} {front : List Char} (e : LlmctlError)
    (hfront : front <+: streamText order requestId model now deltas outcome) :
    Relays deltas outcome (readThen jsonError front fun _ => [.error e]) ↔
      outcome = .failed ∧
        (deltaBodies order requestId model now 0 deltas).flatMap (· ++ ['\n', '\n']) <+: front := by
  constructor
  · rintro ⟨chunks, hchunks, hend⟩
    cases outcome with
    | done finishReason =>
      obtain ⟨last, -, hitems⟩ := hend
      obtain ⟨e', he'⟩ := readThen_error jsonError front e
      rw [hitems] at he'
      simp at he'
    | failed =>
      refine ⟨rfl, ?_⟩
      obtain ⟨e', hitems⟩ := hend
      have hcount : chunks.length = deltas.length := by
        have hlen := congrArg List.length hchunks
        rwa [List.length_map, List.length_map] at hlen
      by_contra hcovered
      have hnewline : ∀ body ∈ deltaBodies order requestId model now 0 deltas ++
          closingBodies order requestId model now deltas.length .failed, '\n' ∉ body := by
        intro body hbody
        rcases List.mem_append.mp hbody with hbody | hbody
        · exact deltaBodies_newline order requestId model now 0 deltas body hbody
        · exact closingBodies_newline order requestId model now deltas.length .failed body hbody
      have hprefix : front <+: (deltaBodies order requestId model now 0 deltas ++
          closingBodies order requestId model now deltas.length .failed).flatMap (· ++ ['\n', '\n']) := by
        rw [List.flatMap_append]
        exact hfront
      have hframes := frames_prefix hnewline hprefix
      have hshort : (sseFraming.frames front).1 <+: deltaBodies order requestId model now 0 deltas := by
        rcases List.prefix_or_prefix_of_prefix hframes (List.prefix_append _ _) with h | h
        · exact h
        · exact absurd (prefix_of_frames h) hcovered
      have hne : (sseFraming.frames front).1 ≠ deltaBodies order requestId model now 0 deltas := fun heq =>
        hcovered (prefix_of_frames (heq ▸ List.prefix_refl _))
      have hlen := readThen_short order requestId model now jsonError e hshort hne
      rw [hitems, List.length_append, List.length_map, hcount, List.length_singleton] at hlen
      omega
  · rintro ⟨rfl, rest, rfl⟩
    refine ⟨deltaItems requestId model now 0 deltas, deltaItems_contents requestId model now 0 deltas, ?_⟩
    rw [readThen_deltas]
    have hrest := frames_prefix (closingBodies_newline order requestId model now deltas.length .failed)
      ((List.prefix_append_right_inj _).mp hfront)
    cases hread : (sseFraming.frames rest).1 with
    | nil =>
      refine ⟨e, ?_⟩
      unfold readThen
      simp [hread, readAll]
    | cons body bodies =>
      obtain ⟨e', he'⟩ := decode_error order requestId jsonError
      have hbody : body = eventBody (errorChunk order requestId) := by
        rw [hread] at hrest
        exact (List.cons_prefix_cons.mp hrest).1
      refine ⟨e', ?_⟩
      unfold readThen
      simp only [hread, hbody, readAll_error he', if_true]

/-- The events of the deltas. -/
def deltaEvents (sent : Nat) : List String → List String
  | [] => []
  | delta :: deltas =>
    sseEvent (deltaChunk order requestId model now sent delta) :: deltaEvents (sent + 1) deltas

theorem deltaEvents_toList (sent : Nat) (deltas : List String) :
    (String.join (deltaEvents order requestId model now sent deltas)).toList =
      (deltaBodies order requestId model now sent deltas).flatMap (· ++ ['\n', '\n']) := by
  induction deltas generalizing sent with
  | nil => rfl
  | cons delta deltas ih =>
    rw [deltaEvents, String.join_cons, String.toList_append, ih, sseEvent_toList]
    rfl

end

def decodable (chunk : ByteArray) : Bool := decide chunk.IsValidUTF8

theorem decodable_iff {chunk : ByteArray} : decodable chunk = true ↔ chunk.IsValidUTF8 := decide_eq_true_iff

/-- Every chunk is UTF-8 by itself; of a stream that failed, those that carry the events of
the deltas. -/
def Intact (outcome : NativeStreamOutcome) (deltaEvents : List String) (chunks : List ByteArray) : Prop :=
  match outcome with
  | .done _ => ∀ chunk ∈ chunks, chunk.IsValidUTF8
  | .failed => (String.join deltaEvents).utf8ByteSize ≤ (joined (chunks.takeWhile decodable)).size

section
variable (order : MapOrder) (requestId model : String) (now : Nat → Int64)
variable (jsonError : List Char → String) (utf8Error : ByteArray → String)

theorem size_le_iff {text front : String} {whole : List Char} (htext : text.toList <+: whole)
    (hfront : front.toList <+: whole) : text.utf8ByteSize ≤ front.utf8ByteSize ↔ text.toList <+: front.toList := by
  have happend : ∀ {s t : String}, s.toList <+: t.toList → ∃ r : String, t = s ++ r := by
    rintro s t ⟨r, hr⟩
    refine ⟨String.ofList r, String.toList_inj.mp ?_⟩
    rw [String.toList_append, String.toList_ofList, hr]
  constructor
  · intro hle
    rcases List.prefix_or_prefix_of_prefix htext hfront with h | h
    · exact h
    · obtain ⟨r, rfl⟩ := happend h
      rw [String.utf8ByteSize_append] at hle
      have hr : r = "" := String.utf8ByteSize_eq_zero_iff.mp (by omega)
      rw [hr, String.append_empty]
  · intro h
    obtain ⟨r, rfl⟩ := happend h
    rw [String.utf8ByteSize_append]
    exact Nat.le_add_right _ _

theorem fromUTF8_eq_none {chunk : ByteArray} (h : decodable chunk = false) : String.fromUTF8? chunk = none :=
  dif_neg (of_decide_eq_false h)

/-- The client relays a stream just when the chunks it needs are UTF-8 by themselves. -/
theorem chatStream_relays_iff {deltas : List String} (hdeltas : ∀ delta ∈ deltas, delta ≠ "")
    (outcome : NativeStreamOutcome) (chunks : List ByteArray)
    (hcut : joined chunks = (String.join (nativeCompletionEvents order requestId model now 0 deltas outcome)).toUTF8) :
    Relays deltas outcome (chatStream jsonError utf8Error [] (chunks.map .ok)) ↔
      Intact outcome (deltaEvents order requestId model now 0 deltas) chunks := by
  have hwhole := events_toList order requestId model now outcome 0 hdeltas
  rw [Nat.zero_add] at hwhole
  have hsplit : chunks = chunks.takeWhile decodable ++ chunks.dropWhile decodable := List.takeWhile_append_dropWhile.symm
  obtain ⟨texts, htexts⟩ := @texts_of_valid (chunks.takeWhile decodable) fun chunk hchunk =>
    decodable_iff.mp (List.mem_takeWhile_imp hchunk)
  have hgood : joined (chunks.takeWhile decodable) = (String.join texts).toUTF8 := by rw [htexts, joined_texts]
  have hbytes : (String.join texts).toUTF8 ++ joined (chunks.dropWhile decodable) =
      (String.join (nativeCompletionEvents order requestId model now 0 deltas outcome)).toUTF8 := by
    rw [← hgood, ← joined_append, ← hsplit, hcut]
  have hprefix := prefix_of_bytes hbytes
  rw [hwhole] at hprefix
  have hstream : chatStream jsonError utf8Error [] (chunks.map .ok) =
      readThen jsonError (String.join texts).toList fun buffer =>
        chatStream jsonError utf8Error buffer ((chunks.dropWhile decodable).map .ok) := by
    have hmap : chunks.map (Except.ok : ByteArray → Except LlmctlError ByteArray) = texts.map (fun text => .ok text.toUTF8) ++
        (chunks.dropWhile decodable).map .ok := by
      conv_lhs => rw [hsplit, htexts, List.map_append, List.map_map]
      rfl
    rw [hmap]
    exact chatStream_texts jsonError utf8Error texts ((chunks.dropWhile decodable).map .ok) frames_nil
  have hdeltaText : (String.join (deltaEvents order requestId model now 0 deltas)).toList <+:
      streamText order requestId model now deltas outcome := by
    rw [deltaEvents_toList]
    exact List.prefix_append _ _
  have hsize := size_le_iff hdeltaText hprefix
  rw [hstream]
  cases htail : chunks.dropWhile decodable with
  | nil =>
    have hall : chunks = chunks.takeWhile decodable := by rwa [htail, List.append_nil] at hsplit
    have hwholeText : (String.join texts).toList = streamText order requestId model now deltas outcome := by
      rw [htail, joined, ByteArray.append_empty] at hbytes
      rw [String.toByteArray_inj.mp hbytes, hwhole]
      rfl
    refine iff_of_true (hwholeText ▸ relays_whole order requestId model now jsonError utf8Error deltas outcome) ?_
    cases outcome with
    | done finishReason =>
      intro chunk hchunk
      rw [hall] at hchunk
      exact decodable_iff.mp (List.mem_takeWhile_imp hchunk)
    | failed =>
      rw [Intact, hgood]
      exact hsize.mpr (hwholeText ▸ hdeltaText)
  | cons bad rest =>
    have hbad : decodable bad = false := by
      have hhead := List.head?_dropWhile_not decodable chunks
      rwa [htail] at hhead
    have hmem : bad ∈ chunks := by
      rw [hsplit, htail]
      exact List.mem_append_right _ (List.mem_cons_self ..)
    have hnone := fromUTF8_eq_none hbad
    have hfails : (fun buffer => chatStream jsonError utf8Error buffer ((bad :: rest).map .ok)) =
        fun _ => [.error (.decode s!"stream chunk is not utf-8: {utf8Error bad}")] := by
      funext buffer
      simp [chatStream, hnone]
    rw [hfails, relays_cut order requestId model now jsonError _ hprefix]
    cases outcome with
    | done finishReason =>
      exact iff_of_false (fun h => nomatch h.1) fun h => absurd (h bad hmem) (of_decide_eq_false hbad)
    | failed =>
      rw [Intact, hgood, ← deltaEvents_toList, ← hsize]
      exact ⟨fun h => h.2, fun h => ⟨rfl, h⟩⟩

end

/-- The server's bytes for an accented letter in one chunk. -/
theorem chatStream_relays_whole :
    let text := String.join (nativeCompletionEvents .inserted "1" "m" (fun _ => 0) 0 ["é"] (.done "stop"))
    Relays ["é"] (.done "stop") (chatStream (fun _ => "") (fun _ => "") [] ([text.toUTF8].map .ok)) :=
  (chatStream_relays_iff .inserted "1" "m" (fun _ => 0) (fun _ => "") (fun _ => "") (by simp) (.done "stop") [_]
    ByteArray.append_empty).mpr fun _ h => List.mem_singleton.mp h ▸ String.isValidUTF8 _

/-! ## A cut inside a character -/

theorem isValidUTF8_after (before : String) (rest : ByteArray) : (before.toUTF8 ++ rest).IsValidUTF8 ↔ rest.IsValidUTF8 := by
  have hlist : ∀ cs : List Char, (cs.utf8Encode ++ rest).IsValidUTF8 ↔ rest.IsValidUTF8 := by
    intro cs
    induction cs with
    | nil => simp
    | cons c cs ih =>
      rw [← List.singleton_append, List.utf8Encode_append, ByteArray.append_assoc,
        ByteArray.isValidUTF8_utf8Encode_singleton_append_iff, ih]
  rw [String.toUTF8_eq_toByteArray, ← String.utf8Encode_toList, hlist]

/-- A text's bytes cut after the first byte of its first `c`. -/
def cutInside (c : Char) (text : String) : List ByteArray :=
  let before := String.ofList (text.toList.takeWhile (· ≠ c))
  let after := (String.ofList (text.toList.dropWhile (· ≠ c))).toUTF8
  [before.toUTF8 ++ after.extract 0 1, after.extract 1 after.size]

theorem dropWhile_of_mem {c : Char} {s : List Char} (h : c ∈ s) : ∃ rest, s.dropWhile (· ≠ c) = c :: rest := by
  induction s with
  | nil => cases h
  | cons d s ih =>
    by_cases hd : d = c
    · exact ⟨s, by simp [hd]⟩
    · rw [List.dropWhile_cons_of_pos (by simpa using hd)]
      exact ih ((List.mem_cons.mp h).resolve_left (Ne.symm hd))

theorem toUTF8_cons (c : Char) (rest : List Char) :
    (String.ofList (c :: rest)).toUTF8 = (String.singleton c).toUTF8 ++ (String.ofList rest).toUTF8 := by
  have hcons : String.ofList (c :: rest) = String.singleton c ++ String.ofList rest := by
    refine String.toList_inj.mp ?_
    simp
  rw [hcons]
  rfl

theorem joined_cutInside {c : Char} {text : String} (hc : c ∈ text.toList) : joined (cutInside c text) = text.toUTF8 := by
  have htext : String.ofList (text.toList.takeWhile (· ≠ c)) ++ String.ofList (text.toList.dropWhile (· ≠ c)) = text := by
    rw [← String.ofList_append, List.takeWhile_append_dropWhile, String.ofList_toList]
  obtain ⟨rest, hrest⟩ := dropWhile_of_mem hc
  have hafter : ∀ b : ByteArray, 1 ≤ b.size → b.extract 0 1 ++ b.extract 1 b.size = b := by
    intro b hb
    rw [ByteArray.extract_append_extract, Nat.min_eq_left (Nat.zero_le 1), Nat.max_eq_right hb, ByteArray.extract_zero_size]
  simp only [joined, cutInside, ByteArray.append_empty, ByteArray.append_assoc]
  rw [hafter]
  · conv_rhs => rw [← htext]
    rfl
  · rw [hrest, toUTF8_cons, ByteArray.size_append]
    have hsize : (String.singleton c).toUTF8.size = c.utf8Size := String.utf8ByteSize_singleton
    have hpos := c.utf8Size_pos
    omega

theorem cutInside_invalid {text : String} (hc : 'é' ∈ text.toList) :
    ∃ first rest, cutInside 'é' text = [first, rest] ∧ ¬ first.IsValidUTF8 := by
  refine ⟨_, _, rfl, ?_⟩
  obtain ⟨rest, hrest⟩ := dropWhile_of_mem hc
  have haccent : (String.singleton 'é').toUTF8 = ⟨#[0xC3, 0xA9]⟩ := by decide
  rw [isValidUTF8_after, hrest, toUTF8_cons, haccent, ByteArray.extract_append]
  have hfirst : (⟨#[0xC3, 0xA9]⟩ : ByteArray).extract 0 1 = ⟨#[0xC3]⟩ := by decide
  have hsize : 1 - (⟨#[0xC3, 0xA9]⟩ : ByteArray).size = 0 := by decide
  rw [hfirst, hsize, Nat.zero_sub, ByteArray.extract_eq_empty_iff.mpr (Nat.min_le_left _ _), ByteArray.append_empty]
  decide

theorem mem_accent : 'é' ∈ (String.join (nativeCompletionEvents .inserted "1" "m" (fun _ => 0) 0 ["é"] (.done "stop"))).toList := by
  rw [events_toList]
  · simp [deltaBodies, eventBody, deltaChunk, contentChunk, chunkChoice, MapOrder.object, MapOrder.inserted, render, renderFields, renderItems, quote, escapeChar]
  · simp

/-- The server's bytes for one accented letter, cut inside the letter: the client fails. -/
theorem accent_lost :
    let text := String.join (nativeCompletionEvents .inserted "1" "m" (fun _ => 0) 0 ["é"] (.done "stop"))
    joined (cutInside 'é' text) = text.toUTF8 ∧
      ¬ Relays ["é"] (.done "stop") (chatStream (fun _ => "") (fun _ => "") [] ((cutInside 'é' text).map .ok)) := by
  refine ⟨joined_cutInside mem_accent, ?_⟩
  obtain ⟨first, rest, hcut, hinvalid⟩ := cutInside_invalid mem_accent
  have hnone := fromUTF8_eq_none (decide_eq_false hinvalid)
  rw [hcut]
  rintro ⟨chunks, -, last, -, hitems⟩
  simp only [List.map_cons, chatStream, hnone] at hitems
  cases chunks <;> simp at hitems

end Llmctl.Client
