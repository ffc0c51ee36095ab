import Llmctl.Server.ChatBody

/-!
# Bodies that are written again

What is read of a body after `setMessages` or `setModel` wrote it: the request, its values
kept once more, with what was set.
-/

namespace Llmctl.ChatBody

open De Native Value

/-! ## Reading a message and a request -/

section
variable {numbers : Numbers} {order : FieldOrder}

theorem readMessage_ok {v : Value} {m : NativeChatMessage} : readMessage numbers order v = .ok m ↔
    ∃ entries, structFields "NativeChatMessage" (messageFields numbers order) v = .ok entries ∧
      required "role" readString entries = .ok m.role ∧
      optional "content" none (readOptionValue numbers order) entries = .ok m.content ∧
      optional "tool_calls" none (readOptionValue numbers order) entries = .ok m.toolCalls ∧
      optional "tool_call_id" none (readOption readString) entries = .ok m.toolCallId := by
  simp only [readMessage, bind_ok]
  constructor
  · rintro ⟨entries, hentries, role, hrole, content, hcontent, calls, hcalls, id, hid, h⟩
    cases h
    exact ⟨entries, hentries, hrole, hcontent, hcalls, hid⟩
  · rintro ⟨entries, hentries, hrole, hcontent, hcalls, hid⟩
    exact ⟨entries, hentries, _, hrole, _, hcontent, _, hcalls, _, hid, rfl⟩

theorem readRequest_ok {v : Value} {r : ChatCompletionRequest} : readRequest numbers order v = .ok r ↔
    ∃ entries, structFields "ChatCompletionRequest" (requestFields numbers order) v = .ok entries ∧
      required "model" readString entries = .ok r.model ∧
      optional "messages" [] (readVec (readMessage numbers order)) entries = .ok r.messages ∧
      optional "stream" false readBool entries = .ok r.stream ∧
      optional "metadata" none (readOptionValue numbers order) entries = .ok r.metadata ∧
      optional "tools" none (readOptionValue numbers order) entries = .ok r.tools ∧
      optional "tool_choice" none (readOptionValue numbers order) entries = .ok r.toolChoice := by
  simp only [readRequest, bind_ok]
  constructor
  · rintro ⟨entries, hentries, model, hmodel, messages, hmessages, stream, hstream, metadata, hmetadata, tools, htools,
      choice, hchoice, h⟩
    cases h
    exact ⟨entries, hentries, hmodel, hmessages, hstream, hmetadata, htools, hchoice⟩
  · rintro ⟨entries, hentries, hmodel, hmessages, hstream, hmetadata, htools, hchoice⟩
    exact ⟨entries, hentries, _, hmodel, _, hmessages, _, hstream, _, hmetadata, _, htools, _, hchoice, rfl⟩

theorem messageFields_names : ((messageFields numbers order).map Field.name).Nodup := by
  have hnames : (messageFields numbers order).map Field.name = ["role", "content", "tool_calls", "tool_call_id"] := rfl
  rw [hnames]
  decide

theorem requestFields_names : ((requestFields numbers order).map Field.name).Nodup := by
  have hnames : (requestFields numbers order).map Field.name =
      ["model", "messages", "temperature", "max_tokens", "top_p", "top_k", "presence_penalty", "frequency_penalty", "seed",
        "stop", "n", "stream", "metadata", "tools", "tool_choice"] := rfl
  rw [hnames]
  decide

/-- A message whose values were kept once more. -/
def keptAgain (numbers : Numbers) (order : FieldOrder) (m : NativeChatMessage) : NativeChatMessage :=
  { m with content := m.content.map (again numbers order), toolCalls := m.toolCalls.map (again numbers order) }

def redactContent (text : String) (m : NativeChatMessage) : NativeChatMessage := { m with content := some (.string text) }

section
variable (hrange : PrintsInRange numbers)
include hrange

theorem rereads_value : Rereads numbers order (readValue numbers order) (again numbers order) := by
  intro v w a hkeep hread
  simp only [readValue, hkeep] at hread
  obtain rfl : w = a := Except.ok.inj hread
  simp only [readValue, Kept.keep_again hrange ⟨v, hkeep⟩]

theorem rereads_optionValue : Rereads numbers order (readOptionValue numbers order) (Option.map (again numbers order)) :=
  (rereads_value hrange).option

theorem messageFields_rereads : ∀ field ∈ messageFields numbers order, field.Rereads numbers order := by
  simp only [messageFields, List.forall_mem_cons]
  exact ⟨rereads_string.field _ _, (rereads_optionValue hrange).field _ _, (rereads_optionValue hrange).field _ _,
    rereads_string.option.field _ _, nofun⟩

theorem rereads_message : Rereads numbers order (readMessage numbers order) (keptAgain numbers order) := by
  intro v w m hkeep hread
  obtain ⟨entries, hentries, hrole, hcontent, hcalls, hid⟩ := readMessage_ok.mp hread
  obtain ⟨others, hothers, hrel⟩ := structFields_keep messageFields_names (messageFields_rereads hrange) hkeep hentries
  have hvalue : Rereads numbers order (readOptionValue numbers order) (Option.map (again numbers order)) := rereads_optionValue hrange
  have hid' := rereads_string.option.optional rfl (hrel _) hid
  rw [Option.map_id_apply] at hid'
  exact readMessage_ok.mpr ⟨others, hothers, rereads_string.required (hrel _) hrole, hvalue.optional rfl (hrel _) hcontent,
    hvalue.optional rfl (hrel _) hcalls, hid'⟩

theorem requestFields_rereads : ∀ field ∈ requestFields numbers order, field.Rereads numbers order := by
  have hvalue : Rereads numbers order (readOptionValue numbers order) (Option.map (again numbers order)) := rereads_optionValue hrange
  have hfloat : Rereads numbers order (readOption (readFloat numbers)) _ := (rereads_float hrange).option
  have hu32 : Rereads numbers order (readOption (readU32 numbers)) _ := (rereads_unsigned (2 ^ 32) "u32").option
  have hu64 : Rereads numbers order (readOption (readU64 numbers)) _ := (rereads_unsigned (2 ^ 64) "u64").option
  simp only [requestFields, List.forall_mem_cons]
  exact ⟨rereads_string.field _ _, (rereads_message hrange).vec.field _ _, hfloat.field _ _, hu32.field _ _, hfloat.field _ _,
    hu32.field _ _, hfloat.field _ _, hfloat.field _ _, hu64.field _ _, hvalue.field _ _, hu32.field _ _,
    rereads_bool.field _ _, hvalue.field _ _, hvalue.field _ _, hvalue.field _ _, nofun⟩

/-- A request whose values were kept once more. -/
def requestAgain (numbers : Numbers) (order : FieldOrder) (r : ChatCompletionRequest) : ChatCompletionRequest :=
  { r with
    messages := r.messages.map (keptAgain numbers order)
    metadata := r.metadata.map (again numbers order)
    tools := r.tools.map (again numbers order)
    toolChoice := r.toolChoice.map (again numbers order) }

theorem readRequest_keep {v w : Value} {r : ChatCompletionRequest} (hkeep : keep numbers order v = some w)
    (hread : readRequest numbers order v = .ok r) : readRequest numbers order w = .ok (requestAgain numbers order r) := by
  obtain ⟨entries, hentries, hmodel, hmessages, hstream, hmetadata, htools, hchoice⟩ := readRequest_ok.mp hread
  obtain ⟨others, hothers, hrel⟩ := structFields_keep requestFields_names (requestFields_rereads hrange) hkeep hentries
  have hvalue : Rereads numbers order (readOptionValue numbers order) (Option.map (again numbers order)) := rereads_optionValue hrange
  exact readRequest_ok.mpr ⟨others, hothers, rereads_string.required (hrel _) hmodel,
    (rereads_message hrange).vec.optional rfl (hrel _) hmessages, rereads_bool.optional rfl (hrel _) hstream,
    hvalue.optional rfl (hrel _) hmetadata, hvalue.optional rfl (hrel _) htools, hvalue.optional rfl (hrel _) hchoice⟩

end

/-! ## What is set -/

theorem parse_ok {body : String} {r : ChatCompletionRequest} :
    parse numbers order body = .ok r ↔ ∃ v, fromStr body = some v ∧ readRequest numbers order v = .ok r := by
  unfold parse
  cases fromStr body with
  | none => simp
  | some v => cases h : readRequest numbers order v <;> simp [h]

theorem setField_numeric {fields : List (String × Value)} (hfields : (object fields).Numeric) (key : String) {w : Value}
    (hw : w.Numeric) : (setField (object fields) order key w).Numeric := by
  rw [setField, json, Numeric, numericFields_iff] at *
  intro field hmem
  have hlast := lastField_of_mem (nodup_collectFields order _) hmem
  rw [lastField_collectFields] at hlast
  rcases List.mem_append.mp (mem_of_lastField hlast) with hmem | hmem
  · exact hfields _ hmem
  · obtain rfl : field = (key, w) := List.mem_singleton.mp hmem
    exact hw

theorem setModel_ok {body out upstreamAlias : String} (h : setModel numbers order body upstreamAlias = .ok out) :
    ∃ client fields, fromStr body = some client ∧ keep numbers order client = some (object fields) ∧
      fromStr out = some (setField (object fields) order "model" (.string upstreamAlias)) := by
  unfold setModel Value.read at h
  cases hbody : fromStr body with
  | none =>
    rw [hbody] at h
    cases h
  | some client =>
    rw [hbody, Option.bind_some] at h
    cases hkeep : keep numbers order client with
    | none =>
      rw [hkeep] at h
      cases h
    | some v =>
      rw [hkeep] at h
      cases v with
      | object fields =>
        obtain rfl := Except.ok.inj h
        exact ⟨client, fields, rfl, hkeep, fromStr_render (setField_numeric (keep_numeric hkeep) "model" trivial)⟩
      | _ => cases h

theorem get_eq_lastField {fields : List (String × Value)} (h : (fields.map (·.1)).Nodup) (key : String) :
    (object fields).get key = lastField key fields := by
  cases hlast : lastField key fields with
  | some v => exact lookup_of_mem h (mem_of_lastField hlast)
  | none =>
    cases hget : (object fields).get key with
    | none => rfl
    | some v =>
      have hsome := lastField_isSome.mpr (List.mem_map.mpr ⟨_, mem_of_get hget, rfl⟩)
      rw [hlast] at hsome
      cases hsome

theorem numericItems_iff {vs : List Value} : NumericItems vs ↔ ∀ v ∈ vs, v.Numeric := by
  induction vs with
  | nil => simp [NumericItems]
  | cons v vs ih => simp [NumericItems, ih]

theorem redactMessage_numeric {items : List Value} (h : ∀ v ∈ items, v.Numeric) (redactions : List (Nat × String)) :
    ∀ v ∈ redactions.foldl (redactMessage order) items, v.Numeric := by
  induction redactions generalizing items with
  | nil => exact h
  | cons r redactions ih =>
    refine ih fun v hv => ?_
    obtain ⟨i, hi⟩ := List.mem_iff_getElem?.mp hv
    rw [redactMessage, List.getElem?_modify] at hi
    cases hitem : items[i]? with
    | none => simp [hitem] at hi
    | some item =>
      have hnumeric := h item (List.mem_of_getElem? hitem)
      rw [hitem] at hi
      obtain rfl := Option.some.inj hi
      dsimp only
      split
      · cases item with
        | object fields => exact setField_numeric hnumeric "content" trivial
        | _ => exact hnumeric
      · exact hnumeric

theorem setMessages_ok {body out : String} {redactions : List (Nat × String)}
    (h : setMessages numbers order body redactions = .ok out) :
    ∃ client fields items, fromStr body = some client ∧ keep numbers order client = some (object fields) ∧
      lastField "messages" fields = some (.array items) ∧
      fromStr out =
        some (setField (object fields) order "messages" (.array (redactions.foldl (redactMessage order) items))) := by
  unfold setMessages Value.read at h
  cases hbody : fromStr body with
  | none =>
    rw [hbody] at h
    cases h
  | some client =>
    rw [hbody, Option.bind_some] at h
    cases hkeep : keep numbers order client with
    | none =>
      rw [hkeep] at h
      cases h
    | some v =>
      rw [hkeep] at h
      dsimp only at h
      split at h
      · rename_i items hget
        obtain rfl := Except.ok.inj h
        cases v with
        | object fields =>
          have hcollected := keep_collected hkeep
          rw [get_eq_lastField hcollected.1] at hget
          have hnumeric : (object fields).Numeric := keep_numeric hkeep
          have hitems : (Value.array items).Numeric := (numericFields_iff.mp hnumeric) _ (mem_of_lastField hget)
          refine ⟨client, fields, items, rfl, hkeep, hget, fromStr_render (setField_numeric hnumeric _ ?_)⟩
          exact numericItems_iff.mpr (redactMessage_numeric (numericItems_iff.mp hitems) redactions)
        | _ => cases hget
      · cases h

/-! ## What is read of a body that was written -/

def isObject : Value → Bool
  | .object _ => true
  | _ => false

/-- Whether the messages of a body are objects, each by its index. -/
def objectMessage (client : Value) (i : Nat) : Bool := (follow [.key "messages", .item i] client).any isObject

/-- A redaction of the messages that are read, where it finds an object. -/
def redactObject (forms : Nat → Bool) (messages : List NativeChatMessage) (redaction : Nat × String) : List NativeChatMessage :=
  messages.modify redaction.1 fun m => if forms redaction.1 then redactContent redaction.2 m else m

theorem isObject_keep {v w : Value} (h : keep numbers order v = some w) : isObject w = isObject v := by
  cases v with
  | null | bool | string =>
    cases h
    rfl
  | number =>
    obtain ⟨n, -, rfl⟩ := Option.map_eq_some_iff.mp h
    rfl
  | array =>
    obtain ⟨ws, -, rfl⟩ := Option.map_eq_some_iff.mp h
    rfl
  | object =>
    obtain ⟨ws, -, rfl⟩ := Option.map_eq_some_iff.mp h
    rfl

theorem isObject_setField (v : Value) (key : String) (w : Value) : isObject (v.setField order key w) = isObject v := by
  cases v <;> rfl

theorem readMessage_setContent {v : Value} {m : NativeChatMessage} (hread : readMessage numbers order v = .ok m) (text : String) :
    readMessage numbers order (v.setField order "content" (.string text)) =
      .ok (if isObject v then redactContent text m else m) := by
  cases v with
  | object fields =>
    obtain ⟨entries, hentries, hrole, -, hcalls, hid⟩ := readMessage_ok.mp hread
    obtain ⟨_, -, h⟩ := bind_ok.mp hentries
    obtain rfl : fields = entries := Except.ok.inj h
    have hcheck : ∀ field ∈ messageFields numbers order, field.name = "content" → field.check (.string text) = .ok () := by
      intro field hfield hname
      rw [field_eq_of_name messageFields_names hfield (List.mem_cons_of_mem _ List.mem_cons_self) hname]
      rfl
    have hset : structFields "NativeChatMessage" (messageFields numbers order)
        (setField (.object fields) order "content" (.string text)) = .ok _ :=
      structFields_setField messageFields_names hentries hcheck
    refine readMessage_ok.mpr ⟨_, hset, ?_, optional_set_self "content" none _ fields _, ?_, ?_⟩
    · rw [required_set (by decide)]
      exact hrole
    · rw [optional_set (by decide)]
      exact hcalls
    · rw [optional_set (by decide)]
      exact hid
  | _ => exact hread

/-- The messages that are read after redactions were written. -/
theorem readMessages_redacted {items : List Value} {messages : List NativeChatMessage} {forms : Nat → Bool}
    (hforms : ∀ i, items[i]?.any isObject = forms i)
    (hread : List.Forall₂ (fun v m => readMessage numbers order v = .ok m) items messages) (redactions : List (Nat × String)) :
    List.Forall₂ (fun v m => readMessage numbers order v = .ok m) (redactions.foldl (redactMessage order) items)
      (redactions.foldl (redactObject forms) messages) := by
  induction redactions generalizing items messages with
  | nil => exact hread
  | cons r redactions ih =>
    refine ih (fun i => ?_) ?_
    · rw [← hforms i, redactMessage, List.getElem?_modify]
      cases items[i]? with
      | none => rfl
      | some item =>
        simp only [Option.map_eq_map, Option.map_some, Option.any_some]
        split
        · exact isObject_setField item _ _
        · rfl
    · refine forall₂_modify hread r.1 fun v m hv hm => ?_
      have hform := hforms r.1
      rw [hv, Option.any_some] at hform
      rw [readMessage_setContent hm, hform]

/-! ## The bodies that are sent -/

section
variable (hrange : PrintsInRange numbers)
include hrange

/-- A body whose model was set is read as the request, its values kept once more. -/
theorem parse_setModel {body out upstreamAlias : String} {r : ChatCompletionRequest} (hparse : parse numbers order body = .ok r)
    (hset : setModel numbers order body upstreamAlias = .ok out) :
    parse numbers order out = .ok { requestAgain numbers order r with model := upstreamAlias } := by
  obtain ⟨client, fields, hbody, hkeep, hout⟩ := setModel_ok hset
  obtain ⟨v, hv, hread⟩ := parse_ok.mp hparse
  obtain rfl : client = v := Option.some.inj (hbody.symm.trans hv)
  obtain ⟨entries, hentries, -, hmessages, hstream, hmetadata, htools, hchoice⟩ :=
    readRequest_ok.mp (readRequest_keep hrange hkeep hread)
  obtain ⟨_, -, h⟩ := bind_ok.mp hentries
  obtain rfl : fields = entries := Except.ok.inj h
  have hcheck : ∀ field ∈ requestFields numbers order, field.name = "model" → field.check (.string upstreamAlias) = .ok () := by
    intro field hfield hname
    rw [field_eq_of_name requestFields_names hfield List.mem_cons_self hname]
    rfl
  refine parse_ok.mpr ⟨_, hout, readRequest_ok.mpr ⟨_, structFields_setField requestFields_names hentries hcheck,
    required_set_self "model" _ fields _, ?_, ?_, ?_, ?_, ?_⟩⟩
  · rw [optional_set (by decide)]
    exact hmessages
  · rw [optional_set (by decide)]
    exact hstream
  · rw [optional_set (by decide)]
    exact hmetadata
  · rw [optional_set (by decide)]
    exact htools
  · rw [optional_set (by decide)]
    exact hchoice

/-- A body whose messages were redacted is read as the request, its values kept once more,
with the messages redacted that are objects. -/
theorem parse_setMessages {body out : String} {redactions : List (Nat × String)} {client : Value} {r : ChatCompletionRequest}
    (hbody : fromStr body = some client) (hparse : parse numbers order body = .ok r)
    (hset : setMessages numbers order body redactions = .ok out) :
    parse numbers order out = .ok { requestAgain numbers order r with
      messages := redactions.foldl (redactObject (objectMessage client)) (r.messages.map (keptAgain numbers order)) } := by
  obtain ⟨client', fields, items, hbody', hkeep, hitems, hout⟩ := setMessages_ok hset
  obtain rfl : client = client' := Option.some.inj (hbody.symm.trans hbody')
  obtain ⟨v, hv, hread⟩ := parse_ok.mp hparse
  obtain rfl : client = v := Option.some.inj (hbody.symm.trans hv)
  obtain ⟨entries, hentries, hmodel, hmessages, hstream, hmetadata, htools, hchoice⟩ :=
    readRequest_ok.mp (readRequest_keep hrange hkeep hread)
  obtain ⟨_, -, h⟩ := bind_ok.mp hentries
  obtain rfl : fields = entries := Except.ok.inj h
  have hreads : readVec (readMessage numbers order) (.array items) = .ok (r.messages.map (keptAgain numbers order)) := by
    unfold De.optional at hmessages
    rw [hitems] at hmessages
    exact hmessages
  obtain ⟨_, heq, hreads⟩ := readVec_ok.mp hreads
  cases heq
  have hforms : ∀ i, items[i]?.any isObject = objectMessage client i := by
    intro i
    have hrel := follow_keep hkeep [.key "messages", .item i]
    have hitem : follow [.key "messages", .item i] (object fields) = items[i]? := by
      simp only [follow, step, hitems, Option.bind_some]
      cases items[i]? <;> rfl
    rw [hitem] at hrel
    unfold objectMessage
    generalize follow [.key "messages", .item i] client = x at hrel
    generalize items[i]? = y at hrel
    cases hrel with
    | none => rfl
    | some hxy => exact isObject_keep hxy
  have hedited : readVec (readMessage numbers order) (.array (redactions.foldl (redactMessage order) items)) =
      .ok (redactions.foldl (redactObject (objectMessage client)) (r.messages.map (keptAgain numbers order))) :=
    readVec_ok.mpr ⟨_, rfl, readMessages_redacted hforms hreads redactions⟩
  have hcheck : ∀ field ∈ requestFields numbers order, field.name = "messages" →
      field.check (.array (redactions.foldl (redactMessage order) items)) = .ok () := by
    intro field hfield hname
    rw [field_eq_of_name requestFields_names hfield (List.mem_cons_of_mem _ List.mem_cons_self) hname]
    exact check_of.mpr ⟨_, hedited⟩
  refine parse_ok.mpr ⟨_, hout, readRequest_ok.mpr ⟨_, structFields_setField requestFields_names hentries hcheck,
    ?_, (optional_set_self "messages" [] _ fields _).trans hedited, ?_, ?_, ?_, ?_⟩⟩
  · rw [required_set (by decide)]
    exact hmodel
  · rw [optional_set (by decide)]
    exact hstream
  · rw [optional_set (by decide)]
    exact hmetadata
  · rw [optional_set (by decide)]
    exact htools
  · rw [optional_set (by decide)]
    exact hchoice

end

end

end Llmctl.ChatBody
