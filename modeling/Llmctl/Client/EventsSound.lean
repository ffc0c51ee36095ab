import Llmctl.Client.ChatStream
import Llmctl.Server.Frames
import Llmctl.Text.Framing
import Mathlib.Data.List.Find

/-!
# The events of a native stream, as the client reads them

Each event of the server is a frame of its own, and the client finds in it the delta or
the finish reason that the server wrote. It does not find a chunk in the error event.
-/

namespace Llmctl.Client

open Text Value

/-! ## Frames -/

theorem splitFrame_cons {c : Char} {s : List Char} (h : c ≠ '\n' ∨ s.head? ≠ some '\n') :
    splitFrame (c :: s) = (splitFrame s).map fun r => (c :: r.1, r.2) := by
  rw [splitFrame]
  rintro rest hc rfl
  rcases h with h | h
  · exact h hc
  · exact h rfl

theorem splitFrame_eq {s f r : List Char} (h : splitFrame s = some (f, r)) : s = f ++ '\n' :: '\n' :: r := by
  induction s generalizing f with
  | nil => cases h
  | cons c s ih =>
    by_cases hend : c = '\n' ∧ s.head? = some '\n'
    · obtain ⟨rfl, hs⟩ := hend
      cases s with
      | nil => cases hs
      | cons d s =>
        obtain rfl : d = '\n' := Option.some.inj hs
        cases h
        rfl
    · rw [splitFrame_cons (not_and_or.mp hend)] at h
      obtain ⟨fr, hfr, hf⟩ := Option.map_eq_some_iff.mp h
      obtain ⟨rfl, rfl⟩ := Prod.mk.inj hf
      rw [ih hfr]
      rfl

theorem splitFrame_stable (t : List Char) {s f r : List Char} (h : splitFrame s = some (f, r)) :
    splitFrame (s ++ t) = some (f, r ++ t) := by
  induction s generalizing f with
  | nil => cases h
  | cons c s ih =>
    by_cases hend : c = '\n' ∧ s.head? = some '\n'
    · obtain ⟨rfl, hs⟩ := hend
      cases s with
      | nil => cases hs
      | cons d s =>
        obtain rfl : d = '\n' := Option.some.inj hs
        cases h
        rfl
    · rw [splitFrame_cons (not_and_or.mp hend)] at h
      obtain ⟨fr, hfr, hf⟩ := Option.map_eq_some_iff.mp h
      obtain ⟨rfl, rfl⟩ := Prod.mk.inj hf
      have hhead : (s ++ t).head? = s.head? := by
        cases s with
        | nil => cases hfr
        | cons d s => rfl
      rw [List.cons_append, splitFrame_cons (by rw [hhead]; exact not_and_or.mp hend), ih hfr]
      rfl

def sseFraming : Framing Char where
  stop := ['\n', '\n']
  stop_ne := List.cons_ne_nil _ _
  split := splitFrame
  text h := splitFrame_eq h
  stable t h := splitFrame_stable t h

/-- A frame without newlines, and its end. -/
theorem splitFrame_end {s : List Char} (h : '\n' ∉ s) (r : List Char) :
    splitFrame (s ++ '\n' :: '\n' :: r) = some (s, r) := by
  induction s with
  | nil => rfl
  | cons c s ih =>
    have hc : c ≠ '\n' := fun heq => h (heq ▸ List.mem_cons_self ..)
    rw [List.cons_append, splitFrame_cons (.inl hc), ih fun hmem => h (List.mem_cons_of_mem _ hmem)]
    rfl

/-! ## Events -/

theorem newline_not_mem {s : List Char} (h : Printable s) : '\n' ∉ s := by
  intro hmem
  exact absurd (h _ hmem) (by decide)

def eventBody (chunk : Value) : List Char := ("data: " ++ chunk.render).toList

theorem sseEvent_toList (chunk : Value) : (sseEvent chunk).toList = eventBody chunk ++ ['\n', '\n'] := by
  rw [sseEvent, String.toList_append, eventBody]
  rfl

theorem eventBody_newline {chunk : Value} (h : chunk.Integral) : '\n' ∉ eventBody chunk := by
  have hprefix : Printable "data: ".toList := by decide
  rw [eventBody, String.toList_append]
  exact newline_not_mem (printable_append hprefix (render_printable chunk h))

theorem eventData_eventBody {fields : List (String × Value)} (h : (Value.object fields).Integral) :
    eventData (eventBody (.object fields)) = (Value.object fields).render.toList := by
  have hlines : lines (eventBody (.object fields)) = [eventBody (.object fields)] := by
    unfold lines
    rw [List.splitOn_eq_singleton (eventBody_newline h)]
    simp [stripLines, eventBody]
  unfold eventData
  rw [hlines]
  simp [eventBody, render_object, isWhitespace]

section
variable (jsonError : List Char → String)

theorem eventData_ne {fields : List (String × Value)} :
    ¬ ((Value.object fields).render.toList = [] ∨ (Value.object fields).render.toList = "[DONE]".toList) := by
  simp [render_object]

theorem decodeSseEvent_chunk {chunk : Value} {item : ChatCompletionChunk} (hobject : ∃ fields, chunk = .object fields)
    (h : chunk.Integral) (hread : ChatCompletionChunk.read chunk = some item) :
    decodeSseEvent jsonError (eventBody chunk) = .ok (some item) := by
  obtain ⟨fields, rfl⟩ := hobject
  unfold decodeSseEvent
  simp only [eventData_eventBody h]
  rw [if_neg eventData_ne, String.ofList_toList, fromStr_render h.numeric, Option.bind_some, hread]

theorem decodeSseEvent_error {chunk : Value} (hobject : ∃ fields, chunk = .object fields) (h : chunk.Integral)
    (hread : ChatCompletionChunk.read chunk = none) : ∃ e, decodeSseEvent jsonError (eventBody chunk) = .error e := by
  obtain ⟨fields, rfl⟩ := hobject
  unfold decodeSseEvent
  simp only [eventData_eventBody h]
  rw [if_neg eventData_ne, String.ofList_toList, fromStr_render h.numeric, Option.bind_some, hread]
  exact ⟨_, rfl⟩

theorem decodeSseEvent_done : decodeSseEvent jsonError "data: [DONE]".toList = .ok none := by
  have hdata : eventData "data: [DONE]".toList = "[DONE]".toList := by decide
  unfold decodeSseEvent
  simp only [hdata]
  rw [if_pos (.inr trivial)]

end

/-! ## Chunks -/

section
variable (order : MapOrder) (requestId : String)

theorem integralFields_iff {fields : List (String × Value)} :
    IntegralFields fields ↔ ∀ field ∈ fields, field.2.Integral := by
  induction fields with
  | nil => simp [IntegralFields]
  | cons field fields ih => simp [IntegralFields, ih]

theorem object_integral {fields : List (String × Value)} (h : ∀ field ∈ fields, field.2.Integral) :
    (order.object fields).Integral :=
  integralFields_iff.mpr fun field hfield => h field ((order.perm fields).mem_iff.mp hfield)

/-- An object whose keys differ gives each field, in any order. -/
theorem field_arrange {fields : List (String × Value)} (h : (fields.map (·.1)).Nodup) (name : String) :
    field (order.arrange fields) name = field fields name := by
  have hkeys : ((order.arrange fields).map (·.1)).Nodup := ((order.perm fields).map _).nodup_iff.mpr h
  unfold field
  congr 1
  refine List.find?_eq_find?_of_perm (order.perm fields) fun a ha b hb => ?_
  exact List.inj_on_of_nodup_map hkeys ha.1 hb.1 ((beq_iff_eq.mp ha.2).trans (beq_iff_eq.mp hb.2).symm)

theorem structFields_object {fields : List (String × Value)} (h : (fields.map (·.1)).Nodup) (names : List String) :
    structFields names (order.object fields) = some (order.arrange fields) := by
  have hkeys : ((order.arrange fields).map (·.1)).Nodup := ((order.perm fields).map _).nodup_iff.mpr h
  unfold MapOrder.object structFields
  exact if_pos (hkeys.filter _)

theorem optional_arrange {α : Type} {fields : List (String × Value)} (h : (fields.map (·.1)).Nodup)
    (read : Value → Option α) (name : String) :
    optional read (order.arrange fields) name = optional read fields name := by
  rw [optional, field_arrange order h, optional]

theorem required_arrange {α : Type} {fields : List (String × Value)} (h : (fields.map (·.1)).Nodup)
    (read : Value → Option α) (name : String) :
    required read (order.arrange fields) name = required read fields name := by
  rw [required, field_arrange order h, required]

theorem vecOrDefault_arrange {α : Type} {fields : List (String × Value)} (h : (fields.map (·.1)).Nodup)
    (read : Value → Option α) (name : String) :
    vecOrDefault read (order.arrange fields) name = vecOrDefault read fields name := by
  rw [vecOrDefault, field_arrange order h, vecOrDefault]

theorem integer_digits (n : Nat) : integer (Nat.toDigits 10 n) = some (n : Int) := by
  have hdigit : ∀ c ∈ Nat.toDigits 10 n, c.isDigit = true := fun c hc =>
    Nat.isDigit_of_mem_toDigits (by decide) (by decide) hc
  have hsign : parseSign (Nat.toDigits 10 n) = ([], Nat.toDigits 10 n) :=
    parseSign_digit fun c hc => hdigit c (List.mem_of_mem_head? hc)
  unfold integer
  rw [hsign]
  simp only
  rw [if_pos ⟨Nat.toDigits_ne_nil, List.all_eq_true.mpr hdigit⟩, Nat.ofDigitChars_ten_toDigits]
  rfl

theorem integer_minus (n : Nat) : integer ('-' :: Nat.toDigits 10 n) = some (-(n : Int)) := by
  have hdigit : ∀ c ∈ Nat.toDigits 10 n, c.isDigit = true := fun c hc =>
    Nat.isDigit_of_mem_toDigits (by decide) (by decide) hc
  unfold integer parseSign
  simp only
  rw [if_pos ⟨Nat.toDigits_ne_nil, List.all_eq_true.mpr hdigit⟩, Nat.ofDigitChars_ten_toDigits]
  rfl

theorem repr_ne_minusZero (i : Int) : i.repr ≠ "-0" := by
  intro h
  have htext := congrArg String.toList h
  rw [Int.repr_eq_if] at htext
  split at htext
  · rw [Nat.toList_repr] at htext
    have hdigit : ('-').isDigit = true :=
      Nat.isDigit_of_mem_toDigits (b := 10) (n := i.toNat) (by decide) (by decide) (by rw [htext]; decide)
    exact absurd hdigit (by decide)
  · rename_i hneg
    rw [String.toList_append, Nat.toList_repr] at htext
    have hzero : Nat.toDigits 10 (-i).toNat = ['0'] := List.append_cancel_left htext
    have hpos : 0 < (-i).toNat := by omega
    exact toDigits_head hpos '0' (by rw [hzero]; rfl) rfl

theorem readInt_repr {low high i : Int} (hlow : low ≤ i) (hhigh : i < high) :
    readInt low high (.number i.repr) = some i := by
  have hinteger : integer i.repr.toList = some i := by
    rw [Int.repr_eq_if]
    split
    · rename_i h
      rw [Nat.toList_repr, integer_digits, Int.toNat_of_nonneg h]
    · rename_i h
      have hminus : ("-" ++ (-i).toNat.repr).toList = '-' :: Nat.toDigits 10 (-i).toNat := by
        rw [String.toList_append, Nat.toList_repr]
        rfl
      have hpos : 0 ≤ -i := by omega
      rw [hminus, integer_minus, Int.toNat_of_nonneg hpos, Int.neg_neg]
  simp [readInt, repr_ne_minusZero, hinteger, Option.filter, hlow, hhigh]

theorem readDelta_content (delta : String) :
    ChatMessageDelta.read (order.object [("content", .string delta)]) = some ⟨none, some delta, none⟩ := by
  have hkeys : ([("content", Value.string delta)].map (·.1)).Nodup := by simp
  simp only [ChatMessageDelta.read, structFields_object order hkeys, Option.bind_eq_bind, Option.bind_some,
    optional_arrange order hkeys]
  simp [optional, field, readString]

theorem readDelta_empty : ChatMessageDelta.read (order.object []) = some ⟨none, none, none⟩ := by
  have hkeys : (([] : List (String × Value)).map (·.1)).Nodup := by simp
  simp only [ChatMessageDelta.read, structFields_object order hkeys, Option.bind_eq_bind, Option.bind_some,
    optional_arrange order hkeys]
  simp [optional, field]

theorem readChoice {delta : List (String × Value)} {read : ChatMessageDelta} {reason : Value} {finish : Option String}
    (hdelta : ChatMessageDelta.read (order.object delta) = some read)
    (hreason : optional readString [("finish_reason", reason)] "finish_reason" = some finish) :
    ChatChunkChoice.read (chunkChoice order delta reason) = some ⟨0, read, finish⟩ := by
  have hkeys : ([("index", Value.number "0"), ("delta", order.object delta), ("finish_reason", reason)].map (·.1)).Nodup := by
    simp
  have hindex : readU32 (.number "0") = some 0 := readInt_repr (i := 0) (by decide) (by decide)
  have hfinish : optional readString [("index", Value.number "0"), ("delta", order.object delta),
      ("finish_reason", reason)] "finish_reason" = some finish := by
    rw [← hreason]
    simp [optional, field]
  simp only [ChatChunkChoice.read, chunkChoice, structFields_object order hkeys, Option.bind_eq_bind, Option.bind_some,
    optional_arrange order hkeys, required_arrange order hkeys, hfinish]
  simp [required, field, hindex, hdelta]

theorem readChunk (created : Int64) (model : String) {choice : Value} {read : ChatChunkChoice}
    (hchoice : ChatChunkChoice.read choice = some read) :
    ChatCompletionChunk.read (contentChunk order requestId created model choice) =
      some ⟨"chatcmpl-" ++ requestId, "chat.completion.chunk", some created.toInt, model, [read], none⟩ := by
  have hkeys : ([("id", Value.string ("chatcmpl-" ++ requestId)), ("object", .string "chat.completion.chunk"),
      ("created", .number created.toInt.repr), ("model", .string model), ("choices", .array [choice])].map (·.1)).Nodup := by
    simp
  have hcreated : readI64 (.number created.toInt.repr) = some created.toInt :=
    readInt_repr created.le_toInt created.toInt_lt
  simp only [ChatCompletionChunk.read, contentChunk, structFields_object order hkeys, Option.bind_eq_bind,
    Option.bind_some, optional_arrange order hkeys, required_arrange order hkeys, vecOrDefault_arrange order hkeys]
  simp [required, optional, vecOrDefault, field, readString, hcreated, readVec, hchoice]

/-- The error event names no model. -/
theorem readChunk_error : ChatCompletionChunk.read (errorChunk order requestId) = none := by
  have hkeys : ([("id", Value.string ("chatcmpl-" ++ requestId)), ("object", .string "chat.completion.chunk"),
      ("error", order.object [("type", .string "native_runtime_error"),
        ("message", .string "native runtime failed while streaming")])].map (·.1)).Nodup := by
    simp
  simp only [ChatCompletionChunk.read, errorChunk, structFields_object order hkeys, Option.bind_eq_bind,
    Option.bind_some, optional_arrange order hkeys, required_arrange order hkeys, vecOrDefault_arrange order hkeys]
  simp [required, optional, field, readString]

end

/-! ## The events of a stream -/

theorem frames_event {body : List Char} (h : '\n' ∉ body) (rest : List Char) :
    sseFraming.frames (body ++ ['\n', '\n'] ++ rest) = (body :: (sseFraming.frames rest).1, (sseFraming.frames rest).2) := by
  rw [List.append_assoc]
  exact sseFraming.frames_some (splitFrame_end h rest)

theorem frames_events {bodies : List (List Char)} (h : ∀ body ∈ bodies, '\n' ∉ body) (rest : List Char) :
    sseFraming.frames (bodies.flatMap (· ++ ['\n', '\n']) ++ rest) =
      (bodies ++ (sseFraming.frames rest).1, (sseFraming.frames rest).2) := by
  induction bodies with
  | nil => rfl
  | cons body bodies ih =>
    obtain ⟨hbody, hbodies⟩ := List.forall_mem_cons.mp h
    rw [List.flatMap_cons, List.append_assoc, frames_event hbody, ih hbodies]
    rfl

section
variable (order : MapOrder) (requestId model : String) (now : Nat → Int64)

def deltaChunk (sent : Nat) (delta : String) : Value :=
  contentChunk order requestId (now sent) model (chunkChoice order [("content", .string delta)] .null)

def finishChunk (sent : Nat) (finishReason : String) : Value :=
  contentChunk order requestId (now sent) model (chunkChoice order [] (.string finishReason))

/-- The events of the deltas alone. -/
def deltaBodies (sent : Nat) : List String → List (List Char)
  | [] => []
  | delta :: deltas => eventBody (deltaChunk order requestId model now sent delta) :: deltaBodies (sent + 1) deltas

/-- The events after the deltas. -/
def closingBodies (sent : Nat) (outcome : NativeStreamOutcome) : List (List Char) :=
  let (failure, finishReason) := match outcome with
    | .done finishReason => ([], finishReason)
    | .failed => ([eventBody (errorChunk order requestId)], "error")
  failure ++ [eventBody (finishChunk order requestId model now sent finishReason), "data: [DONE]".toList]

theorem events_toList (outcome : NativeStreamOutcome) : ∀ {deltas : List String} (sent : Nat), (∀ d ∈ deltas, d ≠ "") →
    (String.join (nativeCompletionEvents order requestId model now sent deltas outcome)).toList =
      (deltaBodies order requestId model now sent deltas).flatMap (· ++ ['\n', '\n']) ++
        (closingBodies order requestId model now (sent + deltas.length) outcome).flatMap (· ++ ['\n', '\n'])
  | [], sent, _ => by
    have hdone : "data: [DONE]\n\n".toList = "data: [DONE]".toList ++ ['\n', '\n'] := by decide
    rw [String.toList_join]
    cases outcome with
    | done finishReason =>
      simp only [nativeCompletionEvents, deltaBodies, closingBodies, finishChunk, List.nil_append, List.flatMap_nil,
        List.flatMap_cons, sseEvent_toList, hdone, List.length_nil, Nat.add_zero]
    | failed =>
      simp only [nativeCompletionEvents, deltaBodies, closingBodies, finishChunk, List.nil_append, List.cons_append,
        List.flatMap_nil, List.flatMap_cons, sseEvent_toList, hdone, List.length_nil, Nat.add_zero]
  | delta :: deltas, sent, h => by
    obtain ⟨hdelta, hdeltas⟩ := List.forall_mem_cons.mp h
    have hempty : delta.isEmpty = false := by
      rw [Bool.eq_false_iff]
      exact fun hemp => hdelta (String.isEmpty_iff.mp hemp)
    have ih := events_toList outcome (sent + 1) hdeltas
    have hcons : nativeCompletionEvents order requestId model now sent (delta :: deltas) outcome =
        sseEvent (deltaChunk order requestId model now sent delta) ::
          nativeCompletionEvents order requestId model now (sent + 1) deltas outcome := by
      simp [nativeCompletionEvents, hempty, deltaChunk]
    have hsent : sent + (delta :: deltas).length = sent + 1 + deltas.length := by
      rw [List.length_cons]
      omega
    rw [String.toList_join] at ih
    rw [hcons, String.toList_join, List.flatMap_cons, ih, hsent, sseEvent_toList, deltaBodies, List.flatMap_cons]
    simp only [List.append_assoc]

theorem contentChunk_integral {created : Int64} {choice : Value} (h : choice.Integral) :
    (contentChunk order requestId created model choice).Integral := by
  refine object_integral order fun field hfield => ?_
  simp only [List.mem_cons, List.not_mem_nil, or_false] at hfield
  rcases hfield with rfl | rfl | rfl | rfl | rfl
  · trivial
  · trivial
  · exact ⟨_, rfl⟩
  · trivial
  · exact ⟨h, trivial⟩

theorem chunkChoice_integral {delta : List (String × Value)} {reason : Value}
    (hdelta : ∀ field ∈ delta, field.2.Integral) (hreason : reason.Integral) :
    (chunkChoice order delta reason).Integral := by
  refine object_integral order fun field hfield => ?_
  simp only [List.mem_cons, List.not_mem_nil, or_false] at hfield
  rcases hfield with rfl | rfl | rfl
  · exact ⟨0, rfl⟩
  · exact object_integral order hdelta
  · exact hreason

theorem deltaChunk_integral (sent : Nat) (delta : String) :
    (deltaChunk order requestId model now sent delta).Integral := by
  refine contentChunk_integral order requestId model (chunkChoice_integral order (fun field hfield => ?_) trivial)
  rw [List.mem_singleton.mp hfield]
  trivial

theorem finishChunk_integral (sent : Nat) (finishReason : String) :
    (finishChunk order requestId model now sent finishReason).Integral :=
  contentChunk_integral order requestId model (chunkChoice_integral order nofun trivial)

theorem errorChunk_integral : (errorChunk order requestId).Integral := by
  refine object_integral order fun field hfield => ?_
  simp only [List.mem_cons, List.not_mem_nil, or_false] at hfield
  rcases hfield with rfl | rfl | rfl
  · trivial
  · trivial
  · refine object_integral order fun field hfield => ?_
    simp only [List.mem_cons, List.not_mem_nil, or_false] at hfield
    rcases hfield with rfl | rfl <;> trivial

/-! ## Their items -/

variable (jsonError : List Char → String)

/-- The chunk of a delta, as the client reads it. -/
def deltaItem (sent : Nat) (delta : String) : ChatCompletionChunk :=
  ⟨"chatcmpl-" ++ requestId, "chat.completion.chunk", some (now sent).toInt, model, [⟨0, ⟨none, some delta, none⟩, none⟩],
    none⟩

def finishItem (sent : Nat) (finishReason : String) : ChatCompletionChunk :=
  ⟨"chatcmpl-" ++ requestId, "chat.completion.chunk", some (now sent).toInt, model,
    [⟨0, ⟨none, none, none⟩, some finishReason⟩], none⟩

theorem decode_delta (sent : Nat) (delta : String) :
    decodeSseEvent jsonError (eventBody (deltaChunk order requestId model now sent delta)) =
      .ok (some (deltaItem requestId model now sent delta)) := by
  have hreason : optional readString [("finish_reason", .null)] "finish_reason" = some none := by
    simp [optional, field]
  have hread := readChunk order requestId (now sent) model (readChoice order (readDelta_content order delta) hreason)
  exact decodeSseEvent_chunk jsonError ⟨_, rfl⟩ (deltaChunk_integral order requestId model now sent delta) hread

theorem decode_finish (sent : Nat) (finishReason : String) :
    decodeSseEvent jsonError (eventBody (finishChunk order requestId model now sent finishReason)) =
      .ok (some (finishItem requestId model now sent finishReason)) := by
  have hreason : optional readString [("finish_reason", .string finishReason)] "finish_reason" = some (some finishReason) := by
    simp [optional, field, readString]
  have hread := readChunk order requestId (now sent) model (readChoice order (readDelta_empty order) hreason)
  exact decodeSseEvent_chunk jsonError ⟨_, rfl⟩ (finishChunk_integral order requestId model now sent finishReason) hread

theorem decode_error :
    ∃ e, decodeSseEvent jsonError (eventBody (errorChunk order requestId)) = .error e :=
  decodeSseEvent_error jsonError ⟨_, rfl⟩ (errorChunk_integral order requestId) (readChunk_error order requestId)

/-- The items of the deltas. -/
def deltaItems (sent : Nat) : List String → List ChatCompletionChunk
  | [] => []
  | delta :: deltas => deltaItem requestId model now sent delta :: deltaItems (sent + 1) deltas

theorem readAll_deltas (sent : Nat) (deltas : List String) :
    readAll (decodeSseEvent jsonError) (deltaBodies order requestId model now sent deltas) =
      ((deltaItems requestId model now sent deltas).map .ok, false) := by
  induction deltas generalizing sent with
  | nil => rfl
  | cons delta deltas ih =>
    rw [deltaBodies, readAll_ok (decode_delta order requestId model now jsonError sent delta), ih]
    rfl

end

end Llmctl.Client
