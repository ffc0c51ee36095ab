import Llmctl.Server.FallbackSound
import Llmctl.Server.RedactionSound
import Llmctl.Server.WeightsSound
import Llmctl.Text.Strings

/-!
# Personal data in what is sent

The guardrails scan one text of each message, and the whole body is sent. `sends_clean_iff`
says for which bodies no string in the content of a message that is sent has a match.
-/

namespace Llmctl.ChatBody

open Async De Native Value Guardrails

/-! ## What the handler sends -/

section
variable {Q : ServerOp → Prop} (hQ : ∀ o, o.sendUrl = none → Q o) {st : ServerState} {request : HttpRequest}
  {principal : Principal} {started : Nat} {route : ResolvedModelRoute}

theorem recordRequestLineageJoins_aside (requestId : Nat) (corpus model : Option String) (source : String)
    (lineageIds : List String) : Aside (recordRequestLineageJoins requestId corpus model source lineageIds) := by
  induction lineageIds with
  | nil => trivial
  | cons lineageId lineageIds ih => exact ⟨rfl, fun _ => (storage_aside _).bind fun _ => ih⟩

theorem auditRejectResponse_aside (requestId : Nat) (principal : Principal) (action resource outcome : String)
    (response : Response) (detail : Json) :
    Aside (auditRejectResponse requestId principal action resource outcome response detail) :=
  (recordAudit_aside ..).bind fun _ => trivial

theorem authenticateWithChatScope_aside (requestId : Nat) (action : String) :
    Aside (authenticateWithChatScope requestId action) := by
  refine Prog.All.op rfl fun (answer : Result Principal) => ?_
  cases answer with
  | error err => exact (auditRejectResponse_aside ..).bind fun _ => trivial
  | ok principal =>
    dsimp only
    split
    · trivial
    · exact (auditRejectResponse_aside ..).bind fun _ => trivial

include hQ

theorem admitChat_sends {chat : Llmctl.ChatCompletionRequest} {body : String}
    (hserve : ∀ admission, (serveChat st request principal started route chat body admission).All Q) :
    (admitChat st request principal started route chat body).All Q := by
  refine ((recordRequestLineageJoins_aside ..).sends hQ).bind fun _ => ((storage_aside _).sends hQ).bind fun decision => ?_
  cases decision with
  | error err => exact (auditRejectResponse_aside ..).sends hQ
  | ok quota =>
    dsimp only
    split
    · refine ((recordAudit_aside ..).sends hQ).bind fun _ => Prog.All.op (hQ _ rfl) fun (acquired : Bool) => ?_
      cases acquired with
      | true => exact hserve _
      | false => exact (auditRejectResponse_aside ..).sends hQ
    · exact (auditRejectResponse_aside ..).sends hQ

theorem chatCompletions_sends
    (hguard : ∀ principal started chat route, st.parseChat request.body = .ok chat →
      resolveModelRoute st.cfg chat.model request.requestId = .ok route →
        (guardChat st request principal started route chat).All Q) :
    (chatCompletions st request).All Q := by
  have hdraining : Aside (drainingResponse request.requestId) := by
    refine Prog.All.op rfl fun (draining : Bool) => ?_
    cases draining <;> trivial
  refine (hdraining.sends hQ).bind fun response => ?_
  cases response with
  | some response => trivial
  | none =>
    refine Prog.All.op (hQ _ rfl) fun started => ((authenticateWithChatScope_aside ..).sends hQ).bind fun auth => ?_
    cases auth with
    | error response => trivial
    | ok principal =>
      dsimp only
      cases hparse : st.parseChat request.body with
      | error err => exact (auditRejectResponse_aside ..).sends hQ
      | ok chat =>
        dsimp only
        cases hroute : resolveModelRoute st.cfg chat.model request.requestId with
        | error err => exact (auditRejectResponse_aside ..).sends hQ
        | ok route => exact hguard principal started chat route hparse hroute

end

section
variable {codec : Codec} {st : ServerState}

/-- The redactions of a verdict on a request. -/
abbrev redactionsOf (codec : Codec) (chat : ChatCompletionRequest) : List (Nat × String) :=
  (evaluate codec.unicode (messageTexts chat) codec.guardrails).redactions

theorem serving_parseChat {body : String} {handled : Llmctl.ChatCompletionRequest}
    (h : (codec.serving st).parseChat body = .ok handled) :
    ∃ chat, parse codec.numbers codec.order body = .ok chat ∧ handlerRequest codec.order chat = handled := by
  simp only [Codec.serving] at h
  cases hparse : parse codec.numbers codec.order body with
  | error e =>
    rw [hparse] at h
    cases h
  | ok chat =>
    rw [hparse] at h
    exact ⟨chat, rfl, Except.ok.inj h⟩

theorem handlerTexts (order : FieldOrder) (chat : ChatCompletionRequest) :
    ((handlerRequest order chat).messages.mapIdx fun index message => (index, message.content)) = messageTexts chat := by
  simp [handlerRequest, messageTexts, List.mapIdx_eq_zipIdx_map, List.zipIdx_map]

end

section
variable {Q : ServerOp → Prop} (hQ : ∀ o, o.sendUrl = none → Q o) {codec : Codec} {st : ServerState} {request : HttpRequest}

include hQ

theorem admitChat_forwards {body mid : String} {redactions : List (Nat × String)} {principal : Principal} {started : Nat}
    {route : ResolvedModelRoute} {handled : Llmctl.ChatCompletionRequest}
    (hmid : applyMessageRedactions (codec.serving st) body redactions = .ok mid)
    (hsend : ∀ route k out url apiKey, forward codec st body redactions route = .ok out → Q (.upstream (.send k url out apiKey))) :
    (admitChat (codec.serving st) request principal started route handled mid).All Q := by
  refine admitChat_sends hQ fun admission => serveChat_sends hQ request principal started handled mid admission fun _ => ?_
  refine dispatchAliases_sends hQ (fun k target rewritten hrewritten _ => ?_) _ _ none
  refine hsend (attemptRoute route k) k rewritten _ _ ?_
  rw [forward, hmid]
  exact hrewritten

theorem guardChat_forwards {chat : ChatCompletionRequest} (principal : Principal) (started : Nat) (route : ResolvedModelRoute)
    (hsend : ∀ route k out url apiKey, (evaluate codec.unicode (messageTexts chat) codec.guardrails).blockReasons = [] →
      forward codec st request.body (redactionsOf codec chat) route = .ok out → Q (.upstream (.send k url out apiKey))) :
    (guardChat (codec.serving st) request principal started route (handlerRequest codec.order chat)).All Q := by
  unfold guardChat
  by_cases hactive : codec.guardrails.isActive = true
  · have hguardrails : (codec.serving st).guardrails = some _ := if_pos hactive
    simp only [hguardrails, handlerTexts]
    by_cases hblock : (evaluate codec.unicode (messageTexts chat) codec.guardrails).blockReasons = []
    · simp only [hblock, List.isEmpty_nil, Bool.not_true, Bool.false_eq_true, if_false]
      have hadmit {mid : String} (hmid : applyMessageRedactions (codec.serving st) request.body (redactionsOf codec chat) = .ok mid)
          (handled : Llmctl.ChatCompletionRequest) :
          (admitChat (codec.serving st) request principal started route handled mid).All Q :=
        admitChat_forwards hQ hmid fun route k out url apiKey => hsend route k out url apiKey hblock
      cases hmid : applyMessageRedactions (codec.serving st) request.body (redactionsOf codec chat) with
      | error err =>
        split
        · exact ((recordAudit_aside ..).sends hQ).bind fun _ => (auditRejectResponse_aside ..).sends hQ
        · exact (auditRejectResponse_aside ..).sends hQ
      | ok mid =>
        split
        · exact ((recordAudit_aside ..).sends hQ).bind fun _ => hadmit hmid _
        · exact hadmit hmid _
    · rw [if_pos (by simpa using hblock)]
      exact (auditRejectResponse_aside ..).sends hQ
  · have hguardrails : (codec.serving st).guardrails = none := if_neg hactive
    have hnone : evaluate codec.unicode (messageTexts chat) codec.guardrails = {} := by
      rw [evaluate, if_pos (by simpa using hactive)]
    simp only [hguardrails]
    have hbody : applyMessageRedactions (codec.serving st) request.body [] = .ok request.body := rfl
    refine admitChat_forwards hQ hbody fun route k out url apiKey hforward => ?_
    refine hsend route k out url apiKey (by rw [hnone]) ?_
    rw [redactionsOf, hnone]
    exact hforward

/-- The handler sends for a request that passes what is forwarded of it, and nothing else. -/
theorem chatCompletions_forwards
    (hsend : ∀ chat route k out url apiKey, parse codec.numbers codec.order request.body = .ok chat →
      (evaluate codec.unicode (messageTexts chat) codec.guardrails).blockReasons = [] →
        forward codec st request.body (redactionsOf codec chat) route = .ok out → Q (.upstream (.send k url out apiKey))) :
    (chatCompletions (codec.serving st) request).All Q := by
  refine chatCompletions_sends hQ fun principal started handled route hparse _ => ?_
  obtain ⟨chat, hchat, rfl⟩ := serving_parseChat hparse
  exact guardChat_forwards hQ principal started route fun route k out url apiKey => hsend chat route k out url apiKey hchat

end

/-! ## Contents -/

/-- Where the content of a message is set. -/
def contentPath (i : Nat) : List Step := [.key "messages", .item i, .key "content"]

/-- Where the content of a message stands: bodies and messages are objects or arrays. -/
def contentPaths (i : Nat) : List (List Step) :=
  [contentPath i, [.key "messages", .item i, .item 1], [.item 1, .item i, .key "content"], [.item 1, .item i, .item 1]]

def Clean (codec : Codec) (v : Value) : Prop :=
  ∀ text ∈ v.stringsOf, hasPii codec.unicode codec.guardrails.pii.categories text = false

/-- No string in the content of a message has a match. -/
def SentClean (codec : Codec) (out : String) : Prop :=
  ∀ sent, fromStr out = some sent → ∀ i, ∀ p ∈ contentPaths i, ∀ content, follow p sent = some content → Clean codec content

/-- Whether the text of a message that is scanned has a match. -/
def matched (codec : Codec) (m : NativeChatMessage) : Bool :=
  hasPii codec.unicode codec.guardrails.pii.categories (messageContentText m)

/-- What the contents are taken from: the body as it was written where nothing is matched,
and else what is kept of it, which must be an object. -/
def taken (codec : Codec) (client : Value) (chat : ChatCompletionRequest) : Option Value :=
  if chat.messages.any (matched codec) then (keep codec.numbers codec.order client).filter isObject else some client

/-- Each content is replaced by a text without a match, or has none. -/
def Covered (codec : Codec) (client : Value) (chat : ChatCompletionRequest) : Prop :=
  ∀ v, taken codec client chat = some v → ∀ i, ∀ p ∈ contentPaths i, ∀ content, follow p v = some content →
    chat.messages[i]?.any (matched codec) = true ∧ p = contentPath i ∨ Clean codec content

section
variable {codec : Codec} {chat : ChatCompletionRequest}

theorem Clean.keep {v w : Value} (h : Clean codec v) (hkeep : keep codec.numbers codec.order v = some w) : Clean codec w :=
  fun text htext => h text (stringsOf_keep hkeep htext)

theorem clean_redacted {i : Nat} {text : String} (h : (redactionsOf codec chat).lookup i = some text) :
    Clean codec (.string text) := by
  obtain ⟨m, -, -, hclean⟩ := mem_redactions codec.unicode codec.guardrails chat (mem_of_lookup h)
  intro s hs
  obtain rfl := List.mem_singleton.mp hs
  exact hclean

theorem matched_eq (hredact : codec.guardrails.pii.action = .redact) (i : Nat) :
    chat.messages[i]?.any (matched codec) = ((redactionsOf codec chat).lookup i).isSome := by
  rw [Bool.eq_iff_iff, Option.any_eq_true]
  constructor
  · rintro ⟨m, hm, hpii⟩
    have hmem : (i, redactPii codec.unicode (messageContentText m) codec.guardrails.pii.categories) ∈ redactionsOf codec chat := by
      rw [redactionsOf, evaluate_redactions hredact, List.mem_filterMap]
      refine ⟨(i, messageContentText m), ?_, if_pos hpii⟩
      rw [List.mem_iff_getElem?]
      exact ⟨i, by simp [messageTexts, hm]⟩
    rw [lookup_redaction (nodup_redactions _ _ _) hmem]
    rfl
  · intro h
    obtain ⟨text, htext⟩ := Option.isSome_iff_exists.mp h
    obtain ⟨m, hm, hpii, -⟩ := mem_redactions codec.unicode codec.guardrails chat (mem_of_lookup htext)
    exact ⟨m, hm, hpii⟩

theorem any_matched_iff (hredact : codec.guardrails.pii.action = .redact) :
    chat.messages.any (matched codec) = true ↔ redactionsOf codec chat ≠ [] := by
  have hat (i : Nat) : ((redactionsOf codec chat).lookup i).isSome = chat.messages[i]?.any (matched codec) :=
    (matched_eq hredact i).symm
  constructor
  · intro hany hnil
    obtain ⟨m, hm, hmatched⟩ := List.any_eq_true.mp hany
    obtain ⟨i, hi⟩ := List.mem_iff_getElem?.mp hm
    have hsome := hat i
    rw [hnil, hi, Option.any_some, hmatched] at hsome
    cases hsome
  · intro hne
    obtain ⟨r, hr⟩ := List.exists_mem_of_ne_nil _ hne
    have hsome := hat r.1
    rw [lookup_redaction (nodup_redactions _ _ _) hr, Option.isSome_some] at hsome
    obtain ⟨m, hm, hmatched⟩ := (Option.any_eq_true ..).mp hsome.symm
    exact List.any_eq_true.mpr ⟨m, List.mem_of_getElem? hm, hmatched⟩

theorem follow_setField_ne {order : FieldOrder} {fields : List (String × Value)} {key : String} (w : Value) {s : Step}
    (hs : s ≠ .key key) (p : List Step) : follow (s :: p) (setField (object fields) order key w) = follow (s :: p) (object fields) := by
  rw [follow, step_setField, if_neg hs, follow]

/-- A body with the redacted messages. -/
abbrev redactedBody (order : FieldOrder) (fields : List (String × Value)) (items : List Value) (redactions : List (Nat × String)) :
    Value :=
  setField (object fields) order "messages" (.array (redactions.foldl (redactMessage order) items))

section
variable {order : FieldOrder} {fields : List (String × Value)} {items : List Value} {redactions : List (Nat × String)}
  (hnodup : (redactions.map (·.1)).Nodup) {i : Nat}
include hnodup

theorem follow_message (s : Step) :
    follow [.key "messages", .item i, s] (redactedBody order fields items redactions) =
      items[i]?.bind fun item =>
        step s ((redactions.lookup i).elim item fun text => item.setField order "content" (.string text)) := by
  have hget := getElem?_foldl_modify (fun _ text item => setField item order "content" (.string text)) hnodup items i
  rw [follow, redactedBody, step_setField, if_pos rfl, Option.bind_some, follow, step,
    show (redactions.foldl (redactMessage order) items)[i]? = _ from hget]
  cases items[i]? with
  | none => rfl
  | some item => cases hlookup : redactions.lookup i <;> simp [follow]

theorem follow_contentPath {text : String} {content : Value} (hlookup : redactions.lookup i = some text)
    (h : follow (contentPath i) (redactedBody order fields items redactions) = some content) : content = .string text := by
  rw [contentPath, follow_message hnodup, hlookup] at h
  obtain ⟨item, -, h⟩ := Option.bind_eq_some_iff.mp h
  cases item with
  | object others =>
    rw [Option.elim_some, step_setField, if_pos rfl] at h
    exact (Option.some.inj h).symm
  | _ => cases h

/-- Elsewhere the contents stay. -/
theorem follow_contentPaths (hitems : lastField "messages" fields = some (.array items)) {p : List Step} (hp : p ∈ contentPaths i)
    (h : p = contentPath i → redactions.lookup i = none) :
    follow p (redactedBody order fields items redactions) = follow p (object fields) := by
  have hmessage : ∀ s : Step, (s = .key "content" → redactions.lookup i = none) →
      follow [.key "messages", .item i, s] (redactedBody order fields items redactions) =
        follow [.key "messages", .item i, s] (object fields) := by
    intro s hs
    rw [follow_message hnodup, follow, step, hitems, Option.bind_some, follow, step]
    congr 1
    funext item
    cases hlookup : redactions.lookup i with
    | none => simp [follow]
    | some text =>
      have hne : s ≠ .key "content" := fun heq => by
        rw [hs heq] at hlookup
        cases hlookup
      cases item with
      | object others => simp [follow, step_setField, hne]
      | _ => simp [follow, setField]
  have hitem (p : List Step) : follow (.item 1 :: p) (redactedBody order fields items redactions) = follow (.item 1 :: p) (object fields) :=
    follow_setField_ne _ (by simp) p
  simp only [contentPaths, List.mem_cons, List.not_mem_nil, or_false] at hp
  rcases hp with rfl | rfl | rfl | rfl
  · exact hmessage _ fun _ => h rfl
  · exact hmessage _ fun hs => by cases hs
  · exact hitem _
  · exact hitem _

end

/-! ## What is sent -/

variable {st : ServerState} {body mid out : String} {client : Value}

theorem sentClean_rewrite {route : ResolvedModelRoute} (h : SentClean codec mid)
    (hout : rewriteChatModel (codec.serving st) mid route = .ok out) : SentClean codec out := by
  unfold rewriteChatModel at hout
  by_cases halias : route.requestedAlias = route.upstreamAlias
  · rw [if_pos halias] at hout
    exact Except.ok.inj hout ▸ h
  · rw [if_neg halias] at hout
    obtain ⟨written, fields, hmid, hkeep, hsent⟩ := setModel_ok hout
    intro sent hsent' i p hp content hcontent
    obtain rfl := Option.some.inj (hsent.symm.trans hsent')
    have hpath : follow p (setField (object fields) codec.order "model" (.string route.upstreamAlias)) = follow p (object fields) := by
      simp only [contentPaths, contentPath, List.mem_cons, List.not_mem_nil, or_false] at hp
      rcases hp with rfl | rfl | rfl | rfl
      all_goals exact follow_setField_ne _ (by simp) _
    rw [hpath] at hcontent
    have hrel := follow_keep hkeep p
    rw [hcontent] at hrel
    generalize hbefore : follow p written = before at hrel
    cases hrel with
    | some hkept => exact (h written hmid i p hp _ hbefore).keep hkept

variable (hredact : codec.guardrails.pii.action = .redact) (hbody : fromStr body = some client)
include hredact hbody

theorem sentClean_redact (hcovered : Covered codec client chat)
    (hmid : applyMessageRedactions (codec.serving st) body (redactionsOf codec chat) = .ok mid) : SentClean codec mid := by
  have hmatched (i : Nat) : chat.messages[i]?.any (matched codec) = ((redactionsOf codec chat).lookup i).isSome :=
    matched_eq hredact i
  intro sent hsent i p hp content hcontent
  unfold applyMessageRedactions at hmid
  by_cases hempty : redactionsOf codec chat = []
  · rw [hempty] at hmid hmatched
    obtain rfl := Except.ok.inj hmid
    obtain rfl := Option.some.inj (hbody.symm.trans hsent)
    have htaken : taken codec client chat = some client := if_neg fun hany => (any_matched_iff hredact).mp hany hempty
    rcases hcovered client htaken i p hp content hcontent with ⟨h, -⟩ | hclean
    · rw [hmatched] at h
      cases h
    · exact hclean
  · rw [if_neg (by simpa using hempty)] at hmid
    obtain ⟨client', fields, items, hbody', hkeep, hitems, hsent'⟩ := setMessages_ok hmid
    obtain rfl := Option.some.inj (hbody.symm.trans hbody')
    obtain rfl := Option.some.inj (hsent'.symm.trans hsent)
    have htaken : taken codec client chat = some (object fields) := by
      rw [taken, if_pos ((any_matched_iff hredact).mpr hempty), hkeep]
      rfl
    have hnodup : ((redactionsOf codec chat).map (·.1)).Nodup := nodup_redactions _ _ _
    by_cases hkept : p = contentPath i → (redactionsOf codec chat).lookup i = none
    · rw [follow_contentPaths hnodup hitems hp hkept] at hcontent
      rcases hcovered _ htaken i p hp content hcontent with ⟨h, hpath⟩ | hclean
      · rw [hmatched, hkept hpath] at h
        cases h
      · exact hclean
    · push Not at hkept
      obtain ⟨rfl, hsome⟩ := hkept
      obtain ⟨text, hlookup⟩ := Option.ne_none_iff_exists'.mp hsome
      rw [follow_contentPath hnodup hlookup hcontent]
      exact clean_redacted hlookup

omit hredact in
theorem messages_of_parse {fields : List (String × Value)} (hparse : parse codec.numbers codec.order body = .ok chat)
    (hkeep : keep codec.numbers codec.order client = some (object fields)) (hne : chat.messages ≠ []) :
    ∃ items, lastField "messages" fields = some (.array items) := by
  obtain ⟨v, hv, hread⟩ := parse_ok.mp hparse
  obtain rfl := Option.some.inj (hbody.symm.trans hv)
  obtain ⟨entries, hentries, -, hmessages, -⟩ := readRequest_ok.mp hread
  have hobject := isObject_keep hkeep
  cases client with
  | object others =>
    obtain ⟨_, -, h⟩ := De.bind_ok.mp hentries
    obtain rfl := Except.ok.inj h
    have hrel := step_keep hkeep (.key "messages")
    unfold De.optional at hmessages
    rw [step, step] at hrel
    cases hlast : lastField "messages" others with
    | none =>
      rw [hlast] at hmessages
      exact absurd (Except.ok.inj hmessages).symm hne
    | some v =>
      rw [hlast] at hmessages hrel
      obtain ⟨items, rfl, -⟩ := De.readVec_ok.mp hmessages
      generalize lastField "messages" fields = kept at hrel
      cases hrel with
      | some hitems =>
        obtain ⟨ws, -, rfl⟩ := Option.map_eq_some_iff.mp hitems
        exact ⟨ws, rfl⟩
  | _ => cases hobject

omit hredact in
theorem setMessages_exists {fields : List (String × Value)} {items : List Value}
    (hkeep : keep codec.numbers codec.order client = some (object fields)) (hitems : lastField "messages" fields = some (.array items))
    (redactions : List (Nat × String)) : ∃ mid, setMessages codec.numbers codec.order body redactions = .ok mid ∧
      fromStr mid = some (redactedBody codec.order fields items redactions) := by
  have hset : setMessages codec.numbers codec.order body redactions =
      .ok (redactedBody codec.order fields items redactions).render := by
    rw [setMessages, Value.read, hbody, Option.bind_some, hkeep]
    simp only [get_eq_lastField (keep_collected hkeep).1, hitems]
  obtain ⟨client', fields', items', hbody', hkeep', hitems', hsent⟩ := setMessages_ok hset
  obtain rfl := Option.some.inj (hbody.symm.trans hbody')
  obtain rfl : fields = fields' := by simpa [hkeep] using hkeep'
  obtain rfl : items = items' := by simpa [hitems] using hitems'
  exact ⟨_, hset, hsent⟩

/-- What is sent without a match leaves no content that is not covered. -/
theorem covered_of_clean (hparse : parse codec.numbers codec.order body = .ok chat)
    (hclean : ∀ mid, applyMessageRedactions (codec.serving st) body (redactionsOf codec chat) = .ok mid → SentClean codec mid) :
    Covered codec client chat := by
  have hmatched (i : Nat) : chat.messages[i]?.any (matched codec) = ((redactionsOf codec chat).lookup i).isSome :=
    matched_eq hredact i
  intro v hv i p hp content hcontent
  unfold applyMessageRedactions at hclean
  by_cases hempty : redactionsOf codec chat = []
  · rw [taken, if_neg fun hany => (any_matched_iff hredact).mp hany hempty] at hv
    obtain rfl := Option.some.inj hv
    exact .inr (hclean body (if_pos (by rw [hempty]; rfl)) client hbody i p hp content hcontent)
  · have hany := (any_matched_iff hredact).mpr hempty
    rw [taken, if_pos hany, Option.filter_eq_some_iff] at hv
    obtain ⟨hkeep, hobject⟩ := hv
    cases v with
    | object fields =>
      have hne : chat.messages ≠ [] := by
        intro hnil
        rw [hnil] at hany
        cases hany
      obtain ⟨items, hitems⟩ := messages_of_parse hbody hparse hkeep hne
      obtain ⟨mid, hmid, hsent⟩ := setMessages_exists hbody hkeep hitems (redactionsOf codec chat)
      have hsentClean := hclean mid (by rwa [if_neg (by simpa using hempty)])
      by_cases hkept : p = contentPath i → (redactionsOf codec chat).lookup i = none
      · rw [← follow_contentPaths (nodup_redactions _ _ _) hitems hp hkept] at hcontent
        exact .inr (hsentClean _ hsent i p hp content hcontent)
      · push Not at hkept
        exact .inl ⟨by rw [hmatched, Option.isSome_iff_ne_none]; exact hkept.2, hkept.1⟩
    | _ => cases hobject

end

/-! ## A node that sends a body -/

/-- A node whose one model is asked for. -/
def aliasNode (a : String) : ServerState :=
  { oneModelNode with cfg := { oneModel with models := [{ qwen with alias_ := a }] } }

theorem resolveModelRoute_aliasNode (a : String) : resolveModelRoute (aliasNode a).cfg a 0 = .ok ⟨a, a, [], none⟩ := by
  have hlocal : modelIsRoutedLocally (aliasNode a).cfg { qwen with alias_ := a } = true :=
    modelIsRoutedLocally_single _ rfl List.mem_cons_self
  have hmodels : (aliasNode a).cfg.models = [{ qwen with alias_ := a }] := rfl
  have hmode : (aliasNode a).cfg.mode = .single := rfl
  have hroutes : (aliasNode a).cfg.externalProviderRoutes = [] := rfl
  simp [resolveModelRoute, selectUpstream, hlocal, hmodels, hmode, hroutes]

/-- What a program returns where each call gets a steady answer. -/
abbrev replay {α : Type} (p : ServerProg α) : α := (p.eval (steadyAnswer oneModelNode {}) (fun _ _ g => g) ()).1

def alice : Principal := { subject := "alice", team := "", scopes := ["chat", "admin"] }

theorem of_replay {α β : Type} {P : ServerOp → Prop} {p : ServerProg α} {f : α → ServerProg β} (h : (p >>= f).All P) :
    (f (replay p)).All P :=
  Prog.All.of_eval _ _ h

theorem of_all_bind {α β : Type} {P : ServerOp → Prop} {p : ServerProg α} {f : α → ServerProg β} (h : (p >>= f).All P) : p.All P := by
  induction p with
  | done a => trivial
  | call o k ih => exact ⟨h.1, fun a => ih a (h.2 a)⟩

theorem upstream_aliasNode (a : String) : ∃ url, mapGet (aliasNode a).upstreams a = some url := by
  have hupstreams : ∃ url, (aliasNode a).upstreams = [(a, url)] := ⟨_, rfl⟩
  obtain ⟨url, hurl⟩ := hupstreams
  exact ⟨url, by simp [hurl, mapGet]⟩

section
variable {codec : Codec} {P : ServerOp → Prop} {a body : String} {chat : Llmctl.ChatCompletionRequest} {request : HttpRequest}

theorem of_proxyChat (h : (proxyChat (codec.serving (aliasNode a)) request alice 0 ⟨a, a, [], none⟩ chat body [] false).All P) :
    ∃ url apiKey, P (.upstream (.send a url body apiKey)) := by
  have hdispatch := of_all_bind (p := dispatchChatRequest _ _ _ _) h
  have hbody : rewriteChatModel (codec.serving (aliasNode a)) body (attemptRoute ⟨a, a, [], none⟩ a) = .ok body := if_pos rfl
  obtain ⟨url, hurl⟩ := upstream_aliasNode a
  have htarget : dispatchTarget (codec.serving (aliasNode a)) (attemptRoute ⟨a, a, [], none⟩ a) = .ok ⟨url, none⟩ := by
    have hurl : mapGet (codec.serving (aliasNode a)).upstreams a = some url := hurl
    simp [dispatchTarget, attemptRoute, upstreamForAlias, hurl]
  simp only [dispatchChatRequest, dispatchAliases, hbody, htarget] at hdispatch
  have hattempt := of_all_bind (p := dispatchAttempt _ _ _ _) hdispatch
  exact ⟨_, _, (hattempt.2 .closed).1⟩

theorem of_admitChat (h : (admitChat (codec.serving (aliasNode a)) request alice 0 ⟨a, a, [], none⟩ chat body).All P) :
    ∃ url apiKey, P (.upstream (.send a url body apiKey)) := by
  have hquota := of_replay (p := recordRequestLineageJoins _ _ _ _ _) h
  have haudit := of_replay (p := storage (admitRequest _ _ _ _ _ _)) hquota
  have hpermit := of_replay (p := recordAudit _ _ _ _ _ _) haudit
  have hserve : (serveChat (codec.serving (aliasNode a)) request alice 0 ⟨a, a, [], none⟩ chat body []).All P := hpermit.2 true
  have hup : hasSubprocessUpstream (codec.serving (aliasNode a)) ⟨a, a, [], none⟩ = true := by
    obtain ⟨url, hurl⟩ := upstream_aliasNode a
    have hurl : mapGet (codec.serving (aliasNode a)).upstreams a = some url := hurl
    simp [hasSubprocessUpstream, hurl]
  simp only [serveChat, hup] at hserve
  exact of_proxyChat (of_replay (p := admitToWorker _ _ _) hserve)

theorem of_guardChat {codec : Codec} {chat : ChatCompletionRequest} {mid : String}
    (hblock : (evaluate codec.unicode (messageTexts chat) codec.guardrails).blockReasons = [])
    (hmid : applyMessageRedactions (codec.serving (aliasNode a)) request.body (redactionsOf codec chat) = .ok mid)
    (h : (guardChat (codec.serving (aliasNode a)) request alice 0 ⟨a, a, [], none⟩ (handlerRequest codec.order chat)).All P) :
    ∃ url apiKey, P (.upstream (.send a url mid apiKey)) := by
  unfold guardChat at h
  by_cases hactive : codec.guardrails.isActive = true
  · have hguardrails : (codec.serving (aliasNode a)).guardrails = some _ := if_pos hactive
    simp only [hguardrails, handlerTexts, hblock, hmid, List.isEmpty_nil, Bool.not_true, Bool.false_eq_true, if_false] at h
    split at h
    · exact of_admitChat (of_replay (p := recordAudit _ _ _ _ _ _) h)
    · exact of_admitChat h
  · have hguardrails : (codec.serving (aliasNode a)).guardrails = none := if_neg hactive
    have hnone : evaluate codec.unicode (messageTexts chat) codec.guardrails = {} := by
      rw [evaluate, if_pos (by simpa using hactive)]
    rw [redactionsOf, hnone] at hmid
    obtain rfl := Except.ok.inj hmid
    simp only [hguardrails] at h
    exact of_admitChat h

end

/-- A body that passes is sent, with its redactions, by a node with the model. -/
theorem of_chatCompletions {codec : Codec} {P : ServerOp → Prop} {body mid : String} {chat : ChatCompletionRequest}
    (hparse : parse codec.numbers codec.order body = .ok chat)
    (hblock : (evaluate codec.unicode (messageTexts chat) codec.guardrails).blockReasons = [])
    (hmid : applyMessageRedactions (codec.serving (aliasNode chat.model)) body (redactionsOf codec chat) = .ok mid)
    (h : (chatCompletions (codec.serving (aliasNode chat.model)) ⟨0, body, [], none⟩).All P) :
    ∃ url apiKey, P (.upstream (.send chat.model url mid apiKey)) := by
  have hchat : (codec.serving (aliasNode chat.model)).parseChat body = .ok (handlerRequest codec.order chat) := by
    simp only [Codec.serving, hparse]
  have hroute : resolveModelRoute (codec.serving (aliasNode chat.model)).cfg (handlerRequest codec.order chat).model 0 =
      .ok ⟨chat.model, chat.model, [], none⟩ := resolveModelRoute_aliasNode chat.model
  have hstart := of_replay (p := drainingResponse 0) h
  have hdraining : replay (drainingResponse 0) = none := rfl
  simp only [hdraining] at hstart
  have hauth := of_replay (p := authenticateWithChatScope 0 "chat.completions") (hstart.2 0)
  have halice : replay (authenticateWithChatScope 0 "chat.completions") = .ok alice := rfl
  simp only [halice, hchat, hroute] at hauth
  refine of_guardChat hblock ?_ hauth
  exact hmid

/-! ## When redacted requests are clean -/

/-- A body is sent without a match exactly where all its contents are covered. -/
theorem sends_clean_iff (codec : Codec) (hredact : codec.guardrails.pii.action = .redact) (body : String) :
    (∀ st request, request.body = body →
        (chatCompletions (codec.serving st) request).All fun o : ServerOp => ∀ out, o.sentBody = some out → SentClean codec out) ↔
      ∀ client chat, fromStr body = some client → parse codec.numbers codec.order body = .ok chat →
        (evaluate codec.unicode (messageTexts chat) codec.guardrails).blockReasons = [] → Covered codec client chat := by
  constructor
  · intro h client chat hbody hparse hblock
    have hclean (mid : String)
        (hmid : applyMessageRedactions (codec.serving (aliasNode chat.model)) body (redactionsOf codec chat) = .ok mid) :
        SentClean codec mid := by
      obtain ⟨url, apiKey, hsent⟩ := of_chatCompletions hparse hblock hmid (h (aliasNode chat.model) ⟨0, body, [], none⟩ rfl)
      exact hsent mid rfl
    exact covered_of_clean hredact hbody hparse hclean
  · intro hcovered st request hrequest
    subst hrequest
    refine chatCompletions_forwards (fun o ho out hout => ?_) fun chat route k out url apiKey hparse hblock hforward out' hout => ?_
    · rw [sentBody_of_sendUrl ho] at hout
      cases hout
    · obtain rfl := Option.some.inj hout
      obtain ⟨client, hbody, -⟩ := parse_ok.mp hparse
      obtain ⟨mid, hmid, hrewritten⟩ := forward_ok hforward
      exact sentClean_rewrite (sentClean_redact hredact hbody (hcovered client chat hbody hparse hblock) hmid) hrewritten

theorem mail_sent_clean :
    (chatCompletions (redactingCodec.serving (aliasNode "light")) ⟨0, (mail "mail a@b.co" "light").render, [], none⟩).All
      fun o : ServerOp => ∀ out, o.sentBody = some out → SentClean redactingCodec out := by
  refine (sends_clean_iff redactingCodec rfl _).mpr (fun client chat hbody hparse _ => ?_) (aliasNode "light") _ rfl
  have hmail : fromStr (mail "mail a@b.co" "light").render = some (mail "mail a@b.co" "light") :=
    fromStr_render ⟨⟨⟨trivial, trivial, trivial⟩, trivial⟩, trivial, trivial⟩
  obtain rfl := Option.some.inj (hmail.symm.trans hbody)
  have hchat : parse redactingCodec.numbers redactingCodec.order (mail "mail a@b.co" "light").render = .ok mailRequest := by
    rw [parse, hmail]
    rfl
  obtain rfl := Except.ok.inj (hchat.symm.trans hparse)
  have hmatched : mailRequest.messages[0]?.any (matched redactingCodec) = true := by decide +kernel
  have htaken : taken redactingCodec (mail "mail a@b.co" "light") mailRequest = some (mail "mail a@b.co" "light") := by
    rw [taken, if_pos (by decide +kernel)]
    rfl
  intro v hv i p hp content hcontent
  obtain rfl := Option.some.inj (htaken.symm.trans hv)
  simp only [contentPaths, List.mem_cons, List.not_mem_nil, or_false] at hp
  cases i with
  | zero =>
    rcases hp with rfl | rfl | rfl | rfl
    · exact .inl ⟨hmatched, rfl⟩
    · cases hcontent
    · cases hcontent
    · cases hcontent
  | succ i =>
    rcases hp with rfl | rfl | rfl | rfl
    all_goals cases hcontent

/-- A part with a picture is not scanned. -/
def pictureContent : Value :=
  .array [.object [("image_url", .object [("url", .string "mailto:a@b.co")]), ("type", .string "image_url")]]

def picture : Value :=
  .object
    [("messages", .array [.object [("content", pictureContent), ("role", .string "user")]]), ("model", .string "light")]

def pictureRequest : ChatCompletionRequest :=
  ⟨"light", [{ role := "user", content := some pictureContent }], false, none, none, none⟩

theorem picture_sent :
    (∃ chat, parse redactingCodec.numbers redactingCodec.order picture.render = .ok chat ∧
      (evaluate redactingCodec.unicode (messageTexts chat) redactingCodec.guardrails).blockReasons = []) ∧
    ¬ (chatCompletions (redactingCodec.serving (aliasNode "light")) ⟨0, picture.render, [], none⟩).All
      fun o : ServerOp => ∀ out, o.sentBody = some out → SentClean redactingCodec out := by
  have hbody : fromStr picture.render = some picture :=
    fromStr_render ⟨⟨⟨⟨⟨⟨trivial, trivial⟩, trivial, trivial⟩, trivial⟩, trivial, trivial⟩, trivial⟩, trivial, trivial⟩
  have hparse : parse redactingCodec.numbers redactingCodec.order picture.render = .ok pictureRequest := by
    rw [parse, hbody]
    rfl
  have hblock : (evaluate redactingCodec.unicode (messageTexts pictureRequest) redactingCodec.guardrails).blockReasons = [] := by
    decide +kernel
  refine ⟨⟨pictureRequest, hparse, hblock⟩, fun h => ?_⟩
  have hredactions : redactionsOf redactingCodec pictureRequest = [] := by decide +kernel
  have hmid : applyMessageRedactions (redactingCodec.serving (aliasNode "light")) picture.render
      (redactionsOf redactingCodec pictureRequest) = .ok picture.render := by
    rw [hredactions]
    rfl
  obtain ⟨url, apiKey, hsent⟩ := of_chatCompletions hparse hblock hmid h
  have hclean := hsent _ rfl picture hbody 0 (contentPath 0) List.mem_cons_self _ rfl
  have hmail := hclean "mailto:a@b.co" (by decide +kernel)
  revert hmail
  decide +kernel

end Llmctl.ChatBody
