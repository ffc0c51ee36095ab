import Llmctl.Async.Until
import Llmctl.Server.OutboundSound
import Llmctl.Text.Veiled

/-!
# Messages and the audit trail

Two bodies differ in the strings of their messages. `audit_alike_iff` says for which of them
the rows of both requests are the same, where guardrails do not read the messages.
-/

namespace Llmctl.ChatBody

open Async De Native Value

/-! ## Messages without their strings -/

def messageNames : List String := ["role", "content", "tool_calls", "tool_call_id"]

def hideInMessage (name : String) : Value → Value := if name = "role" then id else veil

def veilMessage : Value → Value := hideStruct hideInMessage messageNames

def requestNames : List String :=
  ["model", "messages", "temperature", "max_tokens", "top_p", "top_k", "presence_penalty", "frequency_penalty", "seed", "stop", "n",
    "stream", "metadata", "tools", "tool_choice"]

def hideInRequest (name : String) : Value → Value := if name = "messages" then hideItems veilMessage else id

/-- A body without the strings of its messages, their roles apart. -/
def veilRequest : Value → Value := hideStruct hideInRequest requestNames

theorem hideInMessage_ne {name : String} (h : name ≠ "role") : hideInMessage name = veil := if_neg h

theorem hideInRequest_ne {name : String} (h : name ≠ "messages") : hideInRequest name = id := if_neg h

/-- What the audit trail says of a request. -/
structure SameAudit (order : FieldOrder) (r r' : ChatCompletionRequest) : Prop where
  model : r.model = r'.model
  stream : r.stream = r'.stream
  tools : toolAuditDetail order r = toolAuditDetail order r'

section
variable {numbers : Numbers} {order : FieldOrder}

theorem blind_optionValue : Blind veil (readOptionValue numbers order) (Option.Rel fun v w => v.itemCount = w.itemCount) :=
  (blind_value numbers order).option

theorem messageFields_veil : ∀ field ∈ messageFields numbers order, Blind veil field.check fun _ _ => True := by
  simp only [messageFields, List.forall_mem_cons]
  exact ⟨blind_string.field _ _, blind_optionValue.field _ _, blind_optionValue.field _ _, blind_string.option.field _ _,
    List.forall_mem_nil _⟩

theorem messageFields_blind :
    ∀ field ∈ messageFields numbers order, Blind (hideInMessage field.name) field.check fun _ _ => True := by
  intro field hfield
  by_cases hrole : field.name = "role"
  · rw [hideInMessage, if_pos hrole]
    exact blind_id (fun _ => trivial) field.check
  · rw [hideInMessage_ne hrole]
    exact messageFields_veil field hfield

theorem blind_message : Blind veilMessage (readMessage numbers order)
    fun m m' => Option.Rel (fun v w => v.itemCount = w.itemCount) m.toolCalls m'.toolCalls := by
  intro v
  have hcontent : Blind (hideInMessage "content") (readOptionValue numbers order) _ := blind_optionValue
  have hcalls : Blind (hideInMessage "tool_calls") (readOptionValue numbers order) _ := blind_optionValue
  have hid : Blind (hideInMessage "tool_call_id") (readOption readString) _ := blind_string.option
  have hrole : Blind (hideInMessage "role") readString fun _ _ => True := blind_id (fun _ => trivial) readString
  have houtline : ∀ v, (hideInMessage "" v).outline = v.outline := outline_veil
  refine (structFields_hide messageFields_blind houtline "NativeChatMessage" v).bind fun entries others h => ?_
  subst h
  refine (hrole.required entries).bind fun _ _ _ => (hcontent.optional .none entries).bind fun _ _ _ =>
    (hcalls.optional .none entries).bind fun _ _ h => (hid.optional .none entries).bind fun _ _ _ => .ok h

theorem requestFields_blind :
    ∀ field ∈ requestFields numbers order, Blind (hideInRequest field.name) field.check fun _ _ => True := by
  have hmessages : Blind (hideInRequest "messages") (readVec (readMessage numbers order)) _ := blind_message.vec
  intro field hfield
  by_cases hname : field.name = "messages"
  · rw [field_eq_of_name requestFields_names hfield (List.mem_cons_of_mem _ List.mem_cons_self) hname]
    exact hmessages.field "messages" false
  · rw [hideInRequest_ne hname]
    exact blind_id (fun _ => trivial) field.check

theorem toolCallCount_eq (v : Value) : toolCallCount v = v.itemCount.getD 1 := by
  cases v <;> rfl

theorem toolCalls_eq {ms ms' : List NativeChatMessage}
    (h : List.Forall₂ (fun m m' => Option.Rel (fun v w => v.itemCount = w.itemCount) m.toolCalls m'.toolCalls) ms ms') :
    (ms.filterMap NativeChatMessage.toolCalls).map toolCallCount = (ms'.filterMap NativeChatMessage.toolCalls).map toolCallCount := by
  induction h with
  | nil => rfl
  | @cons m m' ms ms' hcalls _ ih =>
    rw [List.filterMap_cons, List.filterMap_cons]
    generalize m.toolCalls = calls at hcalls
    generalize m'.toolCalls = calls' at hcalls
    cases hcalls with
    | none => exact ih
    | some hcount => rw [List.map_cons, List.map_cons, ih, toolCallCount_eq, toolCallCount_eq, hcount]

theorem blind_request : Blind veilRequest (readRequest numbers order) (SameAudit order) := by
  intro v
  have hmessages : Blind (hideInRequest "messages") (readVec (readMessage numbers order)) _ := blind_message.vec
  have hother {α : Type} {name : String} (h : name ≠ "messages") (read : Value → De α) : Blind (hideInRequest name) read Eq := by
    rw [hideInRequest_ne h]
    exact blind_id (fun _ => rfl) read
  refine (structFields_hide requestFields_blind (fun _ => rfl) "ChatCompletionRequest" v).bind fun entries others h => ?_
  subst h
  refine ((hother (by decide) readString).required entries).bind fun model _ hmodel => ?_
  refine (hmessages.optional .nil entries).bind fun messages messages' hmessages => ?_
  refine ((hother (by decide) readBool).optional rfl entries).bind fun stream _ hstream => ?_
  refine ((hother (by decide) (readOptionValue numbers order)).optional rfl entries).bind fun metadata _ _ => ?_
  refine ((hother (by decide) (readOptionValue numbers order)).optional rfl entries).bind fun tools _ htools => ?_
  refine ((hother (by decide) (readOptionValue numbers order)).optional rfl entries).bind fun choice _ hchoice => ?_
  subst htools hchoice
  refine .ok ⟨hmodel, hstream, ?_⟩
  rw [toolAuditDetail, toolAuditDetail, toolCalls_eq hmessages]

end

/-! ## Two bodies -/

/-- One string, as JSON writes it. -/
def isQuoted (text : String) : Bool :=
  match text.toList with
  | '"' :: rest => (parseString (rest.length + 1) rest).any fun parsed => parsed.2.isEmpty
  | _ => false

/-- A part of two texts: the same in both, without a string, or a string of the same encoded length. -/
def Segment (part : String × String) : Prop :=
  part.1 = part.2 ∧ '"' ∉ part.1.toList ∨
    isQuoted part.1 = true ∧ isQuoted part.2 = true ∧ part.1.utf8ByteSize = part.2.utf8ByteSize

/-- Texts that are equal but for their strings. -/
def Respelled (body other : String) : Prop :=
  ∃ segments : List (String × String), (∀ part ∈ segments, Segment part) ∧
    body = String.join (segments.map (·.1)) ∧ other = String.join (segments.map (·.2))

/-- Bodies that are equal but for strings in the messages. -/
structure SameBut (body other : String) (v w : Value) : Prop where
  respelled : Respelled body other
  body : fromStr body = some v
  other : fromStr other = some w
  veiled : veilRequest v = veilRequest w

/-- The text of an error says where it is and what was found, of which it quotes a string. -/
structure Quotes (errorText : String → ParseError → String) : Prop where
  alike : ∀ {body other : String} {e e' : DeError}, Respelled body other → e.outline = e'.outline →
    e.kind.quoted = e'.kind.quoted → errorText body (.data e) = errorText other (.data e')
  quoted : ∀ {body other : String} {e e' : DeError}, Respelled body other → e.outline = e'.outline →
    errorText body (.data e) = errorText other (.data e') → e.kind.quoted = e'.kind.quoted

/-- The string at which the reading of a body as a request stops. -/
def stopsAt (codec : Codec) (v : Value) : Option String :=
  match readRequest codec.numbers codec.order v with
  | .ok _ => none
  | .error e => e.kind.quoted

section
variable {order : FieldOrder} {r r' s : ChatCompletionRequest}

theorem SameAudit.common (h : SameAudit order r s) (h' : SameAudit order r' s) : SameAudit order r r' :=
  ⟨h.model.trans h'.model.symm, h.stream.trans h'.stream.symm, h.tools.trans h'.tools.symm⟩

theorem readRequest_alike {numbers : Numbers} {v w : Value} (h : veilRequest v = veilRequest w) :
    Alike (SameAudit order) (readRequest numbers order v) (readRequest numbers order w) := by
  have hv : Alike (SameAudit order) (readRequest numbers order v) (readRequest numbers order (veilRequest v)) := blind_request v
  rw [h] at hv
  refine (hv.common (blind_request w)).mono fun r r' hcommon => ?_
  obtain ⟨s, hr, hr'⟩ := hcommon
  exact hr.common hr'

end

/-! ## The rows up to the admission -/

/-- The admission decision, where it lets a request pass. -/
def admits : (o : ServerOp) → ServerSig.Ans o → Bool
  | .permit (.tryAcquireForAll _), (acquired : Bool) => acquired
  | _, _ => false

/-- An audit row, its time apart. -/
def auditRow : (o : ServerOp) → ServerSig.Ans o → Option AuditEvent
  | .store (.insertAuditEvent event), .ok _ => some { event with at_ := 0 }
  | _, _ => none

/-- The rows that a handler records up to the admission decision. -/
abbrev rows {G α : Type} (ans : (o : ServerOp) → G → ServerSig.Ans o) (upd : (o : ServerOp) → ServerSig.Ans o → G → G)
    (p : ServerProg α) (g : G) : List AuditEvent :=
  p.rowsUntil ans upd admits auditRow g

section
variable {st : ServerState} {request : HttpRequest} {other : String}

theorem admitChat_until {chat chat' : Llmctl.ChatCompletionRequest} (hstream : chat.stream = chat'.stream)
    (htools : chat.toolAuditDetail = chat'.toolAuditDetail) (principal : Principal) (started : Nat) (route : ResolvedModelRoute)
    (body body' : String) :
    Prog.SameUntil admits (admitChat st request principal started route chat body)
      (admitChat st { request with body := other } principal started route chat' body') := by
  refine .bind _ fun _ => .bind _ fun decision => ?_
  cases decision with
  | error err => exact .refl _
  | ok quota =>
    dsimp only
    rw [hstream, htools]
    split
    · refine .bind _ fun _ => .call _ fun (acquired : Bool) hacquired => ?_
      cases acquired with
      | true => cases hacquired
      | false => exact .refl _
    · exact .refl _

/-- Bodies that are read as requests of one model, which the audit trail cannot tell apart. -/
theorem chatCompletions_until {chat chat' : Llmctl.ChatCompletionRequest} (hguardrails : st.guardrails = none)
    (hchat : st.parseChat request.body = .ok chat) (hchat' : st.parseChat other = .ok chat') (hmodel : chat.model = chat'.model)
    (hstream : chat.stream = chat'.stream) (htools : chat.toolAuditDetail = chat'.toolAuditDetail) :
    Prog.SameUntil admits (chatCompletions st request) (chatCompletions st { request with body := other }) := by
  refine .bind _ fun response => ?_
  cases response with
  | some response => exact .refl _
  | none =>
    refine .bind _ fun started => .bind _ fun auth => ?_
    cases auth with
    | error response => exact .refl _
    | ok principal =>
      simp only [hchat, hchat', hmodel]
      cases resolveModelRoute st.cfg chat'.model request.requestId with
      | error err => exact .refl _
      | ok route =>
        simp only [guardChat, hguardrails]
        exact admitChat_until hstream htools principal started route _ _

/-- Bodies that are refused with one text. -/
theorem chatCompletions_refused {err : String} (h : st.parseChat request.body = .error err) (h' : st.parseChat other = .error err) :
    Prog.SameUntil admits (chatCompletions st request) (chatCompletions st { request with body := other }) := by
  refine .bind _ fun response => ?_
  cases response with
  | some response => exact .refl _
  | none =>
    refine .bind _ fun started => .bind _ fun auth => ?_
    cases auth with
    | error response => exact .refl _
    | ok principal =>
      simp only [h, h']
      exact .refl _

/-- The row of a body that is not a request. -/
theorem rows_refused {err : String} (h : st.parseChat request.body = .error err) :
    rows (steadyAnswer oneModelNode {}) (fun _ _ g => g) (chatCompletions st request) () =
      [⟨some request.requestId, 0, "alice", "", "chat.completions", "unknown", "rejected", [("reason", err)]⟩] := by
  simp only [chatCompletions, h]
  rfl

end

/-! ## Which bodies leave the same rows -/

/-- Both bodies leave the same rows, whatever is answered. -/
def SameRows (st : ServerState) (request : HttpRequest) (other : String) : Prop :=
  ∀ (G : Type) (ans : (o : ServerOp) → G → ServerSig.Ans o) (upd : (o : ServerOp) → ServerSig.Ans o → G → G) (g : G),
    rows ans upd (chatCompletions st request) g = rows ans upd (chatCompletions st { request with body := other }) g

theorem sameRows_of_until {st : ServerState} {request : HttpRequest} {other : String}
    (h : Prog.SameUntil admits (chatCompletions st request) (chatCompletions st { request with body := other })) :
    SameRows st request other :=
  fun _ ans upd g => h.rowsUntil_eq ans upd auditRow g

/-- Bodies that are refused leave the same rows where they are refused with one text. -/
theorem sameRows_refused {st : ServerState} {request : HttpRequest} {other err err' : String}
    (h : st.parseChat request.body = .error err) (h' : st.parseChat other = .error err') :
    SameRows st request other ↔ err = err' := by
  constructor
  · intro hrows
    have hrow : _ = rows (steadyAnswer oneModelNode {}) (fun _ _ g => g) (chatCompletions st { request with body := other }) () :=
      hrows Unit (steadyAnswer oneModelNode {}) (fun _ _ g => g) ()
    rw [rows_refused h, rows_refused h'] at hrow
    simpa using hrow
  · intro herr
    subst herr
    exact sameRows_of_until (chatCompletions_refused h h')

section
variable {codec : Codec} {st : ServerState} {body : String} {v : Value}

theorem serving_parse_ok {r : ChatCompletionRequest} (hbody : fromStr body = some v)
    (h : readRequest codec.numbers codec.order v = .ok r) :
    (codec.serving st).parseChat body = .ok (handlerRequest codec.order r) := by
  simp only [Codec.serving, parse, hbody, h]

theorem serving_parse_error {e : DeError} (hbody : fromStr body = some v) (h : readRequest codec.numbers codec.order v = .error e) :
    (codec.serving st).parseChat body = .error (codec.errorText body (.data e)) := by
  simp only [Codec.serving, parse, hbody, h]

end

/-- The audit trail tells bodies that differ in the strings of their messages apart exactly
where reading them stops at strings that differ. -/
theorem audit_alike_iff (codec : Codec) (hinactive : codec.guardrails.isActive = false) (hquotes : Quotes codec.errorText)
    (st : ServerState) (request : HttpRequest) {other : String} {v w : Value} (h : SameBut request.body other v w) :
    SameRows (codec.serving st) request other ↔ stopsAt codec v = stopsAt codec w := by
  have hguardrails : (codec.serving st).guardrails = none := if_neg (by simp [hinactive])
  have halike : Alike (SameAudit codec.order) (readRequest codec.numbers codec.order v) (readRequest codec.numbers codec.order w) :=
    readRequest_alike h.veiled
  unfold stopsAt
  generalize hread : readRequest codec.numbers codec.order v = d at halike
  generalize hread' : readRequest codec.numbers codec.order w = d' at halike
  cases halike with
  | ok hsame =>
    refine iff_of_true (sameRows_of_until ?_) rfl
    exact chatCompletions_until hguardrails (serving_parse_ok h.body hread) (serving_parse_ok h.other hread') hsame.model hsame.stream
      hsame.tools
  | error houtline =>
    rw [sameRows_refused (serving_parse_error h.body hread) (serving_parse_error h.other hread')]
    exact ⟨hquotes.quoted h.respelled houtline, hquotes.alike h.respelled houtline⟩

/-! ### Bodies with a secret -/

/-- An error at the end of a body, on one line, in the words of `serde_json`. -/
def serdeText (body : String) : ParseError → String
  | .malformed => "syntax error"
  | .data e =>
    match e.kind.quoted, e.kind.outline with
    | some s, .invalidType _ expected =>
      s!"invalid type: string \"{s}\", expected {expected} at line 1 column {body.utf8ByteSize - 1}"
    | _, _ => "data error"

def quotingCodec : Codec := { redactingCodec with guardrails := {}, errorText := serdeText }

theorem Respelled.utf8ByteSize_eq {body other : String} (h : Respelled body other) : body.utf8ByteSize = other.utf8ByteSize := by
  obtain ⟨segments, hsegments, rfl, rfl⟩ := h
  induction segments with
  | nil => rfl
  | cons part segments ih =>
    rw [List.forall_mem_cons] at hsegments
    rw [List.map_cons, List.map_cons, String.join_cons, String.join_cons, String.utf8ByteSize_append, String.utf8ByteSize_append,
      ih hsegments.2]
    rcases hsegments.1 with ⟨heq, -⟩ | ⟨-, -, hsize⟩
    · rw [heq]
    · rw [hsize]

theorem quoted_iff {kind : ErrorKind} :
    (∃ s, kind.quoted = some s) ↔ ∃ expected, kind.outline = .invalidType (.string "") expected := by
  cases kind with
  | invalidType found expected => cases found <;> simp [ErrorKind.quoted, ErrorKind.outline, outline]
  | _ => simp [ErrorKind.quoted, ErrorKind.outline]

theorem quotes_serdeText : Quotes serdeText where
  alike hrespelled houtline hquoted := by
    have hkind := congrArg DeError.kind houtline
    simp only [DeError.outline] at hkind
    simp only [serdeText, hrespelled.utf8ByteSize_eq, hquoted, hkind]
  quoted {body other e e'} hrespelled houtline htext := by
    have hkind := congrArg DeError.kind houtline
    simp only [DeError.outline] at hkind
    have hboth : (∃ s, e.kind.quoted = some s) ↔ ∃ s, e'.kind.quoted = some s := by rw [quoted_iff, quoted_iff, hkind]
    cases hs : e.kind.quoted with
    | none =>
      cases ht : e'.kind.quoted with
      | none => rfl
      | some t =>
        obtain ⟨s, hs'⟩ := hboth.mpr ⟨t, ht⟩
        rw [hs] at hs'
        cases hs'
    | some s =>
      obtain ⟨t, ht⟩ := hboth.mp ⟨s, hs⟩
      obtain ⟨expected, hexpected⟩ := quoted_iff.mp ⟨s, hs⟩
      simp only [serdeText, hs, ht, ← hkind, hexpected, hrespelled.utf8ByteSize_eq] at htext
      have hst : toString s = toString t := by simpa [String.append_assoc] using htext
      rw [ht]
      exact congrArg some hst

/-- A text in place of the messages. -/
def bare (text : String) : Value := .object [("messages", .string text)]

def bareSegments : List (String × String) :=
  [("\x7b", "\x7b"), ("\"messages\"", "\"messages\""), (":", ":"), ("\"secret\"", "\"hunter\""), ("\x7d", "\x7d")]

def mailSegments : List (String × String) :=
  [("\x7b", "\x7b"), ("\"messages\"", "\"messages\""), (":[\x7b", ":[\x7b"), ("\"content\"", "\"content\""), (":", ":"),
    ("\"secret\"", "\"hunter\""), (",", ","), ("\"role\"", "\"role\""), (":", ":"), ("\"user\"", "\"user\""), ("\x7d],", "\x7d],"),
    ("\"model\"", "\"model\""), (":", ":"), ("\"light\"", "\"light\""), ("\x7d", "\x7d")]

instance (part : String × String) : Decidable (Segment part) := inferInstanceAs (Decidable (_ ∨ _))

theorem mail_sameBut :
    SameBut (mail "secret" "light").render (mail "hunter" "light").render (mail "secret" "light") (mail "hunter" "light") where
  respelled := ⟨mailSegments, by decide +kernel, by decide +kernel, by decide +kernel⟩
  body := fromStr_render ⟨⟨⟨trivial, trivial, trivial⟩, trivial⟩, trivial, trivial⟩
  other := fromStr_render ⟨⟨⟨trivial, trivial, trivial⟩, trivial⟩, trivial, trivial⟩
  veiled := rfl

theorem bare_sameBut : SameBut (bare "secret").render (bare "hunter").render (bare "secret") (bare "hunter") where
  respelled := ⟨bareSegments, by decide +kernel, by decide +kernel, by decide +kernel⟩
  body := fromStr_render ⟨trivial, trivial⟩
  other := fromStr_render ⟨trivial, trivial⟩
  veiled := rfl

/-- A request with a body. -/
def posted (body : String) : HttpRequest := ⟨0, body, [], none⟩

theorem stopsAt_mail (text : String) : stopsAt quotingCodec (mail text "light") = none := rfl

theorem mail_hidden :
    SameRows (quotingCodec.serving oneModelNode) (posted (mail "secret" "light").render) (mail "hunter" "light").render := by
  have hsame : SameBut (posted (mail "secret" "light").render).body (mail "hunter" "light").render (mail "secret" "light")
      (mail "hunter" "light") := mail_sameBut
  have hiff := audit_alike_iff quotingCodec rfl quotes_serdeText oneModelNode (posted (mail "secret" "light").render) hsame
  rw [stopsAt_mail "secret", stopsAt_mail "hunter"] at hiff
  exact hiff.mpr rfl

theorem readRequest_bare (text : String) :
    readRequest quotingCodec.numbers quotingCodec.order (bare text) = .error ⟨.invalidType (.string text) "a sequence", [0]⟩ := rfl

theorem bare_told : quotingCodec.guardrails.isActive = false ∧ Quotes quotingCodec.errorText ∧
    SameBut (bare "secret").render (bare "hunter").render (bare "secret") (bare "hunter") ∧
    ¬ SameRows (quotingCodec.serving oneModelNode) (posted (bare "secret").render) (bare "hunter").render := by
  refine ⟨rfl, quotes_serdeText, bare_sameBut, fun h => ?_⟩
  have hsecret : (quotingCodec.serving oneModelNode).parseChat (posted (bare "secret").render).body = _ :=
    serving_parse_error bare_sameBut.body (readRequest_bare "secret")
  have hhunter : (quotingCodec.serving oneModelNode).parseChat (bare "hunter").render = _ :=
    serving_parse_error bare_sameBut.other (readRequest_bare "hunter")
  have htext : serdeText (bare "secret").render (.data ⟨.invalidType (.string "secret") "a sequence", [0]⟩) =
      serdeText (bare "hunter").render (.data ⟨.invalidType (.string "hunter") "a sequence", [0]⟩) :=
    (sameRows_refused hsecret hhunter).mp h
  have hquoted : some "secret" = some "hunter" := by
    refine quotes_serdeText.quoted bare_sameBut.respelled ?_ htext
    rfl
  exact absurd (Option.some.inj hquoted) (by decide)

end Llmctl.ChatBody
