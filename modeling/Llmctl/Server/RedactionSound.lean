import Mathlib.Algebra.Order.Field.Rat
import Llmctl.Server.ChatBodySound
import Llmctl.Server.GuardrailsSound
import Llmctl.Server.Script

/-!
# What redaction and routing leave of a body

The redactions of a verdict are made in the request and in the body; the body is written
again for them, and again for a model with another alias. `faithful_iff` says when the body
that is sent is the redacted request and else what the client wrote: its numbers must print
as numbers of the same value, and no message that is redacted may be an array.
-/

namespace Llmctl.ChatBody

open De Native Value Guardrails

/-! ## Values -/

/-- The value of the text of a number. -/
def numberValue (text : String) : ℚ :=
  let (sign, s) := parseSign text.toList
  let (int, s) := s.span Char.isDigit
  let (fraction, s) := match s with
    | '.' :: s => s.span Char.isDigit
    | s => ([], s)
  let exponent : Int := match s with
    | _ :: '-' :: digits => -(Nat.ofDigitChars 10 digits 0 : Int)
    | _ :: '+' :: digits => (Nat.ofDigitChars 10 digits 0 : Int)
    | _ :: digits => (Nat.ofDigitChars 10 digits 0 : Int)
    | [] => 0
  let magnitude : ℚ := (Nat.ofDigitChars 10 (int ++ fraction) 0 : ℚ) * (10 : ℚ) ^ (exponent - fraction.length)
  if sign.isEmpty then magnitude else -magnitude

/-- What a value says apart from its items and fields. -/
inductive Leaf where
  | null
  | bool (b : Bool)
  | number (q : ℚ)
  | string (s : String)
  | array
  | object
  deriving DecidableEq

def leaf : Value → Leaf
  | .null => .null
  | .bool b => .bool b
  | .number text => .number (numberValue text)
  | .string s => .string s
  | .array _ => .array
  | .object _ => .object

/-- `w` is `v` after its numbers were printed and read `k` times, apart from its items and
fields. -/
def Printed (numbers : Numbers) (k : Nat) (v w : Value) : Prop :=
  match v with
  | .number text => ∃ printed, printTimes numbers k text = some printed ∧ w = .number printed
  | .array _ => ∃ items, w = .array items
  | .object _ => ∃ fields, w = .object fields
  | v => w = v

section
variable {numbers : Numbers} {order : FieldOrder}

theorem printTimes_add (j k : Nat) (text : String) :
    printTimes numbers (j + k) text = (printTimes numbers j text).bind (printTimes numbers k) := by
  induction j generalizing text with
  | zero => simp [printTimes]
  | succ j ih =>
    rw [Nat.add_right_comm, printTimes, printTimes, Option.bind_assoc]
    congr 1
    funext printed
    exact ih printed

theorem Printed.refl (v : Value) : Printed numbers 0 v v := by
  cases v with
  | number text => exact ⟨text, rfl, rfl⟩
  | array items => exact ⟨items, rfl⟩
  | object fields => exact ⟨fields, rfl⟩
  | _ => rfl

theorem Printed.trans {j k : Nat} {v w x : Value} (h : Printed numbers j v w) (h' : Printed numbers k w x) :
    Printed numbers (j + k) v x := by
  cases v with
  | number text =>
    obtain ⟨printed, hprinted, rfl⟩ := h
    obtain ⟨again, hagain, rfl⟩ := h'
    exact ⟨again, by rw [printTimes_add, hprinted, Option.bind_some, hagain], rfl⟩
  | array items =>
    obtain ⟨_, rfl⟩ := h
    exact h'
  | object fields =>
    obtain ⟨_, rfl⟩ := h
    exact h'
  | null =>
    obtain rfl := h
    exact h'
  | bool b =>
    obtain rfl := h
    exact h'
  | string s =>
    obtain rfl := h
    exact h'

theorem Printed.of_keep {v w : Value} (h : keep numbers order v = some w) : Printed numbers 1 v w := by
  cases v with
  | number text =>
    obtain ⟨printed, hprinted, rfl⟩ := Option.map_eq_some_iff.mp h
    exact ⟨printed, by simp [printTimes, hprinted], rfl⟩
  | array items =>
    obtain ⟨ws, -, rfl⟩ := Option.map_eq_some_iff.mp h
    exact ⟨ws, rfl⟩
  | object fields =>
    obtain ⟨others, -, rfl⟩ := Option.map_eq_some_iff.mp h
    exact ⟨_, rfl⟩
  | _ => exact (Option.some.inj h).symm

theorem rel_printed_trans {j k : Nat} {a b c : Option Value} (h : Option.Rel (Printed numbers j) a b)
    (h' : Option.Rel (Printed numbers k) b c) : Option.Rel (Printed numbers (j + k)) a c := by
  cases h with
  | none =>
    cases h'
    exact .none
  | some hab =>
    cases h' with
    | some hbc => exact .some (hab.trans hbc)

theorem rel_printed_refl (x : Option Value) : Option.Rel (Printed numbers 0) x x := by
  cases x with
  | none => exact .none
  | some v => exact .some (.refl v)

/-! ## What stands where nothing was set -/

theorem follow_setField {v : Value} {key : String} (w : Value) {p : List Step} (hp : ¬ [.key key] <+: p) :
    Option.Rel (Printed numbers 0) (follow p v) (follow p (v.setField order key w)) := by
  cases v with
  | object fields =>
    cases p with
    | nil => exact .some ⟨_, rfl⟩
    | cons s p =>
      have hs : s ≠ .key key := by
        rintro rfl
        exact hp (List.prefix_append [_] p)
      rw [follow, follow, step_setField, if_neg hs]
      exact rel_printed_refl _
  | _ => exact rel_printed_refl _

theorem getElem?_redacted (redactions : List (Nat × String)) (items : List Value) (i : Nat) {p : List Step}
    (hp : ∀ r ∈ redactions, r.1 = i → ¬ [.key "content"] <+: p) :
    Option.Rel (Printed numbers 0) (items[i]?.bind (follow p)) ((redactions.foldl (redactMessage order) items)[i]?.bind (follow p)) := by
  induction redactions generalizing items with
  | nil => exact rel_printed_refl _
  | cons r redactions ih =>
    obtain ⟨hr, hp⟩ := List.forall_mem_cons.mp hp
    refine rel_printed_trans (j := 0) (k := 0) ?_ (ih (redactMessage order items r) hp)
    rw [redactMessage, List.getElem?_modify]
    cases items[i]? with
    | none => exact .none
    | some item =>
      by_cases hi : r.1 = i
      · simp only [hi, if_true, Option.map_eq_map, Option.map_some, Option.bind_some]
        exact follow_setField _ (hr hi)
      · simp only [hi, if_false, Option.map_eq_map, Option.map_some, Option.bind_some]
        exact rel_printed_refl _

/-- A path into a body that leads neither to its model nor into the content of a message
that is redacted. -/
def Other (redactions : List (Nat × String)) (p : List Step) : Prop :=
  ¬ [.key "model"] <+: p ∧ ∀ r ∈ redactions, ¬ [.key "messages", .item r.1, .key "content"] <+: p

theorem follow_keep_printed {v w : Value} (h : keep numbers order v = some w) (p : List Step) :
    Option.Rel (Printed numbers 1) (follow p v) (follow p w) := by
  have hrel := follow_keep h p
  generalize follow p v = x at hrel
  generalize follow p w = y at hrel
  cases hrel with
  | none => exact .none
  | some hxy => exact .some (.of_keep hxy)

theorem follow_setModel {body out upstreamAlias : String} {client : Value} (hbody : fromStr body = some client)
    (h : setModel numbers order body upstreamAlias = .ok out) :
    ∃ sent, fromStr out = some sent ∧ ∀ p, ¬ [.key "model"] <+: p →
      Option.Rel (Printed numbers 1) (follow p client) (follow p sent) := by
  obtain ⟨client', fields, hbody', hkeep, hout⟩ := setModel_ok h
  obtain rfl : client = client' := Option.some.inj (hbody.symm.trans hbody')
  exact ⟨_, hout, fun p hp => rel_printed_trans (follow_keep_printed hkeep p) (follow_setField _ hp)⟩

theorem follow_setMessages {body out : String} {redactions : List (Nat × String)} {client : Value}
    (hbody : fromStr body = some client) (h : setMessages numbers order body redactions = .ok out) :
    ∃ sent, fromStr out = some sent ∧ ∀ p, (∀ r ∈ redactions, ¬ [.key "messages", .item r.1, .key "content"] <+: p) →
      Option.Rel (Printed numbers 1) (follow p client) (follow p sent) := by
  obtain ⟨client', fields, items, hbody', hkeep, hitems, hout⟩ := setMessages_ok h
  obtain rfl : client = client' := Option.some.inj (hbody.symm.trans hbody')
  refine ⟨_, hout, fun p hp => rel_printed_trans (k := 0) (follow_keep_printed hkeep p) ?_⟩
  cases p with
  | nil => exact .some ⟨_, rfl⟩
  | cons s p =>
    rw [follow, follow, step_setField]
    by_cases hs : s = .key "messages"
    · subst hs
      rw [if_pos rfl, step, hitems, Option.bind_some, Option.bind_some]
      cases p with
      | nil => exact .some ⟨_, rfl⟩
      | cons s p =>
        cases s with
        | key key => exact .none
        | item i =>
          refine getElem?_redacted redactions items i fun r hr hi hpre => hp r hr ?_
          rw [hi]
          exact List.cons_prefix_cons.mpr ⟨rfl, List.cons_prefix_cons.mpr ⟨rfl, hpre⟩⟩
    · rw [if_neg hs]
      exact rel_printed_refl _

/-! ## What is read of the body that is sent -/

theorem keptAgain_redactContent (text : String) (m : NativeChatMessage) :
    keptAgain numbers order (redactContent text m) = redactContent text (keptAgain numbers order m) := rfl

theorem map_redactObject (forms : Nat → Bool) (redactions : List (Nat × String)) (messages : List NativeChatMessage) :
    (redactions.foldl (redactObject forms) messages).map (keptAgain numbers order) =
      redactions.foldl (redactObject forms) (messages.map (keptAgain numbers order)) := by
  induction redactions generalizing messages with
  | nil => rfl
  | cons r redactions ih =>
    rw [List.foldl_cons, List.foldl_cons, ih]
    congr 1
    rw [redactObject, redactObject]
    apply List.ext_getElem?
    intro i
    simp only [List.getElem?_map, List.getElem?_modify, Option.map_eq_map, Option.map_map]
    congr 1
    funext m
    by_cases hi : r.1 = i
    · by_cases hform : forms i = true <;> simp [hi, hform, keptAgain_redactContent]
    · simp [hi]

end

/-- `message.content = Some(Value::String(redacted_text.clone()))` -/
def redactStruct (messages : List NativeChatMessage) (redaction : Nat × String) : List NativeChatMessage :=
  messages.modify redaction.1 (redactContent redaction.2)

/-- What is sent for a body: redacted, and with the model of the route. -/
def forward (codec : Codec) (st : ServerState) (body : String) (redactions : List (Nat × String)) (route : ResolvedModelRoute) :
    Except String String := do
  let body ← applyMessageRedactions (codec.serving st) body redactions
  rewriteChatModel (codec.serving st) body route

/-- How often a body is written again. -/
def writes (redactions : List (Nat × String)) (route : ResolvedModelRoute) : Nat :=
  (if redactions.isEmpty then 0 else 1) + if route.requestedAlias = route.upstreamAlias then 0 else 1

section
variable {codec : Codec} {st : ServerState} {body out : String} {redactions : List (Nat × String)} {route : ResolvedModelRoute}
  {client : Value} {request : ChatCompletionRequest}

theorem forward_ok (h : forward codec st body redactions route = .ok out) :
    ∃ redacted, applyMessageRedactions (codec.serving st) body redactions = .ok redacted ∧
      rewriteChatModel (codec.serving st) redacted route = .ok out := by
  unfold forward at h
  cases hredacted : applyMessageRedactions (codec.serving st) body redactions with
  | error err =>
    rw [hredacted] at h
    cases h
  | ok redacted =>
    rw [hredacted] at h
    exact ⟨redacted, rfl, h⟩

/-- Apart from what was set the numbers of a body were printed as often as it was written. -/
theorem follow_forward (hbody : fromStr body = some client) (h : forward codec st body redactions route = .ok out) :
    ∃ sent, fromStr out = some sent ∧ ∀ p, Other redactions p →
      Option.Rel (Printed codec.numbers (writes redactions route)) (follow p client) (follow p sent) := by
  obtain ⟨redacted, hredacted, hout⟩ := forward_ok h
  have hmid : ∃ mid, fromStr redacted = some mid ∧ ∀ p, Other redactions p →
      Option.Rel (Printed codec.numbers (if redactions.isEmpty then 0 else 1)) (follow p client) (follow p mid) := by
    unfold applyMessageRedactions at hredacted
    by_cases hempty : redactions.isEmpty = true
    · rw [if_pos hempty] at hredacted
      obtain rfl := Except.ok.inj hredacted
      simp only [hempty, if_true]
      exact ⟨client, hbody, fun p _ => rel_printed_refl _⟩
    · rw [if_neg hempty] at hredacted
      obtain ⟨mid, hmid, hfollow⟩ := follow_setMessages hbody hredacted
      simp only [hempty]
      exact ⟨mid, hmid, fun p hp => hfollow p hp.2⟩
  obtain ⟨mid, hmid, hfollow⟩ := hmid
  unfold rewriteChatModel at hout
  unfold writes
  by_cases halias : route.requestedAlias = route.upstreamAlias
  · rw [if_pos halias] at hout
    obtain rfl := Except.ok.inj hout
    rw [if_pos halias]
    exact ⟨mid, hmid, hfollow⟩
  · rw [if_neg halias] at hout
    rw [if_neg halias]
    obtain ⟨sent, hsent, hfollow'⟩ := follow_setModel hmid hout
    exact ⟨sent, hsent, fun p hp => rel_printed_trans (hfollow p hp) (hfollow' p hp.1)⟩

/-- The request that is read of the body that is sent. -/
theorem parse_forward (hrange : PrintsInRange codec.numbers) (hbody : fromStr body = some client)
    (hparse : parse codec.numbers codec.order body = .ok request) (hroute : route.requestedAlias = request.model)
    (h : forward codec st body redactions route = .ok out) :
    ∃ sent, parse codec.numbers codec.order out = .ok sent ∧ sent.model = route.upstreamAlias ∧
      sent.messages = redactions.foldl (redactObject (objectMessage client))
        (request.messages.map (keptAgain codec.numbers codec.order)^[writes redactions route]) := by
  obtain ⟨redacted, hredacted, hout⟩ := forward_ok h
  have hmid : ∃ mid, parse codec.numbers codec.order redacted = .ok mid ∧ mid.model = request.model ∧
      mid.messages = redactions.foldl (redactObject (objectMessage client))
        (request.messages.map (keptAgain codec.numbers codec.order)^[if redactions.isEmpty then 0 else 1]) := by
    unfold applyMessageRedactions at hredacted
    by_cases hempty : redactions.isEmpty = true
    · rw [if_pos hempty] at hredacted
      obtain rfl := Except.ok.inj hredacted
      obtain rfl := List.isEmpty_iff.mp hempty
      exact ⟨request, hparse, rfl, by simp⟩
    · rw [if_neg hempty] at hredacted
      refine ⟨_, parse_setMessages hrange hbody hparse hredacted, rfl, ?_⟩
      simp [hempty]
  obtain ⟨mid, hmid, hmodel, hmessages⟩ := hmid
  unfold rewriteChatModel at hout
  unfold writes
  by_cases halias : route.requestedAlias = route.upstreamAlias
  · rw [if_pos halias] at hout
    obtain rfl := Except.ok.inj hout
    rw [if_pos halias]
    exact ⟨mid, hmid, by rw [hmodel, ← hroute, halias], hmessages⟩
  · rw [if_neg halias] at hout
    refine ⟨_, parse_setModel hrange hmid hout, rfl, ?_⟩
    rw [if_neg halias, Function.iterate_succ', ← List.map_comp_map, Function.comp_apply]
    simp only [requestAgain, hmessages]
    exact map_redactObject _ _ _

end

/-! ## The messages that are redacted -/

/-- The texts of a request that are scanned. -/
def messageTexts (request : ChatCompletionRequest) : List (Nat × String) :=
  request.messages.mapIdx fun index message => (index, messageContentText message)

theorem keys_filterMap {α β : Type} {f : α × β → Option (α × β)} (hf : ∀ x y, f x = some y → y.1 = x.1) (xs : List (α × β)) :
    ((xs.filterMap f).map (·.1)).Sublist (xs.map (·.1)) := by
  induction xs with
  | nil => exact .slnil
  | cons x xs ih =>
    cases hx : f x with
    | none =>
      rw [List.filterMap_cons_none hx]
      exact ih.cons _
    | some y =>
      rw [List.filterMap_cons_some hx, List.map_cons, List.map_cons, hf x y hx]
      exact ih.cons_cons _

theorem redaction_ok {u : Unicode} {cfg : GuardrailsConfig} {x y : Nat × String} (h : redaction u cfg x = some y) :
    y.1 = x.1 ∧ y.2 = redactPii u x.2 cfg.pii.categories ∧ hasPii u cfg.pii.categories x.2 = true := by
  unfold redaction at h
  by_cases hpii : hasPii u cfg.pii.categories x.2 = true
  · rw [if_pos hpii] at h
    cases h
    exact ⟨rfl, rfl, hpii⟩
  · rw [if_neg hpii] at h
    cases h

section
variable (u : Unicode) (cfg : GuardrailsConfig) (request : ChatCompletionRequest)

/-- No message is redacted twice. -/
theorem nodup_redactions : (((evaluate u (messageTexts request) cfg).redactions).map (·.1)).Nodup := by
  by_cases hredact : cfg.pii.action = .redact
  · rw [evaluate_redactions hredact]
    refine (keys_filterMap (fun x y h => (redaction_ok h).1) _).nodup ?_
    have hkeys : (messageTexts request).map (·.1) = List.range request.messages.length := by
      apply List.ext_getElem?
      intro i
      by_cases hi : i < request.messages.length <;> simp [messageTexts, hi]
    rw [hkeys]
    exact List.nodup_range
  · rw [evaluate_redactions_of_ne hredact]
    exact List.nodup_nil

theorem mem_redactions {r : Nat × String} (h : r ∈ (evaluate u (messageTexts request) cfg).redactions) :
    ∃ m, request.messages[r.1]? = some m ∧ hasPii u cfg.pii.categories (messageContentText m) = true ∧
      hasPii u cfg.pii.categories r.2 = false := by
  by_cases hredact : cfg.pii.action = .redact
  · rw [evaluate_redactions hredact] at h
    obtain ⟨x, hx, hr⟩ := List.mem_filterMap.mp h
    obtain ⟨hindex, htext, hpii⟩ := redaction_ok hr
    obtain ⟨i, hi⟩ := List.mem_iff_getElem?.mp hx
    rw [messageTexts, List.getElem?_mapIdx] at hi
    obtain ⟨m, hm, rfl⟩ := Option.map_eq_some_iff.mp hi
    exact ⟨m, by rw [hindex, hm], hpii, by rw [htext, hasPii_redactPii]⟩
  · rw [evaluate_redactions_of_ne hredact] at h
    cases h

end

theorem lookup_redaction {redactions : List (Nat × String)} (hnodup : (redactions.map (·.1)).Nodup) {r : Nat × String}
    (h : r ∈ redactions) : redactions.lookup r.1 = some r.2 := by
  induction redactions with
  | nil => cases h
  | cons q redactions ih =>
    rw [List.map_cons, List.nodup_cons] at hnodup
    rw [List.lookup_cons]
    rcases List.mem_cons.mp h with rfl | hmem
    · simp
    · have hne : r.1 ≠ q.1 := fun heq => hnodup.1 (heq ▸ List.mem_map.mpr ⟨r, hmem, rfl⟩)
      rw [beq_eq_false_iff_ne.mpr hne]
      exact ih hnodup.2 hmem

/-- Where each index is modified at most once. -/
theorem getElem?_foldl_modify {α : Type} (g : Nat → String → α → α) {redactions : List (Nat × String)}
    (hnodup : (redactions.map (·.1)).Nodup) (xs : List α) (i : Nat) :
    (redactions.foldl (fun xs r => xs.modify r.1 (g r.1 r.2)) xs)[i]? =
      xs[i]?.map ((redactions.lookup i).elim id (g i)) := by
  induction redactions generalizing xs with
  | nil => simp
  | cons r redactions ih =>
    rw [List.map_cons, List.nodup_cons] at hnodup
    rw [List.foldl_cons, ih hnodup.2, List.getElem?_modify, List.lookup_cons]
    by_cases hi : r.1 = i
    · have hnone : redactions.lookup i = none := by
        rw [List.lookup_eq_none_iff]
        intro p hp
        have hne : i ≠ p.1 := fun heq => hnodup.1 (by rw [hi, heq]; exact List.mem_map.mpr ⟨p, hp, rfl⟩)
        simpa using hne
      subst hi
      simp [hnone]
    · simp [hi, beq_eq_false_iff_ne.mpr (Ne.symm hi)]

theorem mem_of_lookup {redactions : List (Nat × String)} {i : Nat} {text : String} (h : redactions.lookup i = some text) :
    (i, text) ∈ redactions := by
  obtain ⟨l₁, l₂, rfl, -⟩ := List.lookup_eq_some_iff.mp h
  simp

/-! ## Messages that are the same -/

section
variable {numbers : Numbers} {order : FieldOrder}

theorem readOptionValue_kept {v : Value} {a : Option Value} (h : readOptionValue numbers order v = .ok a) :
    ∀ w ∈ a, Kept numbers order w := by
  intro w hw
  by_cases hnull : v = .null
  · subst hnull
    cases h
    cases hw
  · rw [readOptionValue, readOption_ne hnull, bind_ok] at h
    obtain ⟨kept, hkept, h⟩ := h
    cases h
    obtain rfl : kept = w := Option.some.inj hw
    unfold readValue at hkept
    split at hkept
    · rename_i kept' hkeep
      obtain rfl := Except.ok.inj hkept
      exact ⟨v, hkeep⟩
    · cases hkept

theorem optional_kept {key : String} {entries : List (String × Value)} {a : Option Value}
    (h : optional key none (readOptionValue numbers order) entries = .ok a) : ∀ w ∈ a, Kept numbers order w := by
  unfold De.optional at h
  split at h
  · exact readOptionValue_kept h
  · cases h
    nofun

def KeptMessage (numbers : Numbers) (order : FieldOrder) (m : NativeChatMessage) : Prop :=
  (∀ v ∈ m.content, Kept numbers order v) ∧ ∀ v ∈ m.toolCalls, Kept numbers order v

theorem parse_kept {body : String} {request : ChatCompletionRequest} (h : parse numbers order body = .ok request) :
    ∀ m ∈ request.messages, KeptMessage numbers order m := by
  obtain ⟨v, -, hread⟩ := parse_ok.mp h
  obtain ⟨entries, -, -, hmessages, -⟩ := readRequest_ok.mp hread
  unfold De.optional at hmessages
  split at hmessages
  · obtain ⟨items, -, hitems⟩ := readVec_ok.mp hmessages
    intro m hm
    obtain ⟨i, hi⟩ := List.mem_iff_getElem?.mp hm
    have hrel := getElem?_rel hitems i
    rw [hi] at hrel
    generalize items[i]? = item at hrel
    cases hrel with
    | some hitem =>
      obtain ⟨others, -, -, hcontent, hcalls, -⟩ := readMessage_ok.mp hitem
      exact ⟨optional_kept hcontent, optional_kept hcalls⟩
  · rw [← Except.ok.inj hmessages]
    nofun

theorem keptAgain_iterate (m : NativeChatMessage) (k : Nat) :
    (keptAgain numbers order)^[k] m =
      { m with
        content := m.content.map (again numbers order)^[k]
        toolCalls := m.toolCalls.map (again numbers order)^[k] } := by
  induction k with
  | zero => simp
  | succ k ih =>
    rw [Function.iterate_succ_apply', ih, keptAgain, Function.iterate_succ', Option.map_map, Option.map_map]

/-- The numbers of a value print as they stand, `k` times. -/
def PrintsSame (numbers : Numbers) (k : Nat) (v : Value) : Prop := ∀ t ∈ v.numbersOf, printTimes numbers k t = some t

section
variable (hrange : PrintsInRange numbers)
include hrange

theorem map_iterate_iff {a : Option Value} (h : ∀ v ∈ a, Kept numbers order v) (k : Nat) :
    a.map (again numbers order)^[k] = a ↔ ∀ v ∈ a, PrintsSame numbers k v := by
  cases a with
  | none => simp
  | some v =>
    rw [Option.map_some, Option.some.injEq, (h v rfl).iterate_eq_iff hrange]
    simp [PrintsSame]

theorem iterate_string {v : Value} (h : Kept numbers order v) {k : Nat} {text : String}
    (heq : (again numbers order)^[k] v = .string text) : v = .string text := by
  have hmap := h.printTimes hrange k
  rw [heq] at hmap
  cases v with
  | string t => exact Option.some.inj hmap
  | number t =>
    obtain ⟨_, -, h⟩ := Option.map_eq_some_iff.mp hmap
    cases h
  | array items =>
    obtain ⟨_, -, h⟩ := Option.map_eq_some_iff.mp hmap
    cases h
  | object fields =>
    obtain ⟨_, -, h⟩ := Option.map_eq_some_iff.mp hmap
    cases h
  | _ => cases hmap

theorem keptAgain_iterate_eq_iff {m : NativeChatMessage} (h : KeptMessage numbers order m) (k : Nat) :
    (keptAgain numbers order)^[k] m = m ↔
      (∀ v ∈ m.content, PrintsSame numbers k v) ∧ ∀ v ∈ m.toolCalls, PrintsSame numbers k v := by
  rw [← map_iterate_iff hrange h.1, ← map_iterate_iff hrange h.2, keptAgain_iterate]
  cases m
  simp

theorem redactContent_iterate_eq_iff {m : NativeChatMessage} (h : KeptMessage numbers order m) (k : Nat) (text : String) :
    redactContent text ((keptAgain numbers order)^[k] m) = redactContent text m ↔
      ∀ v ∈ m.toolCalls, PrintsSame numbers k v := by
  rw [← map_iterate_iff hrange h.2, keptAgain_iterate, redactContent, redactContent]
  cases m
  simp

end

end

/-! ## When the body that is sent is faithful -/

/-- The body that is sent is read as the redacted request, and says else what the client
wrote. -/
structure Faithful (codec : Codec) (client : Value) (request : ChatCompletionRequest) (redactions : List (Nat × String))
    (route : ResolvedModelRoute) (out : String) : Prop where
  parsed : ∃ sent, parse codec.numbers codec.order out = .ok sent ∧
    sent.messages = redactions.foldl redactStruct request.messages ∧ sent.model = route.upstreamAlias
  others : ∃ sent, fromStr out = some sent ∧ ∀ p, Other redactions p → (follow p client).map leaf = (follow p sent).map leaf

/-- Messages that are redacted are objects, and numbers that are printed again print as
before. -/
structure Rewritable (numbers : Numbers) (k : Nat) (client : Value) (request : ChatCompletionRequest)
    (redactions : List (Nat × String)) : Prop where
  objects : ∀ r ∈ redactions, objectMessage client r.1 = true
  values : ∀ p text, Other redactions p → follow p client = some (.number text) →
    (printTimes numbers k text).map numberValue = some (numberValue text)
  contents : ∀ i m, request.messages[i]? = some m → redactions.lookup i = none → ∀ v ∈ m.content, PrintsSame numbers k v
  calls : ∀ m ∈ request.messages, ∀ v ∈ m.toolCalls, PrintsSame numbers k v

theorem leaf_eq_iff {numbers : Numbers} {k : Nat} {a b : Option Value} (h : Option.Rel (Printed numbers k) a b) :
    a.map leaf = b.map leaf ↔
      ∀ text, a = some (.number text) → (printTimes numbers k text).map numberValue = some (numberValue text) := by
  cases h with
  | none => simp
  | @some v w hvw =>
    rw [Option.map_some, Option.map_some, Option.some.injEq]
    cases v with
    | number text =>
      obtain ⟨printed, hprinted, rfl⟩ := hvw
      simp [leaf, hprinted, eq_comm]
    | array items =>
      obtain ⟨ws, rfl⟩ := hvw
      simp [leaf]
    | object fields =>
      obtain ⟨others, rfl⟩ := hvw
      simp [leaf]
    | _ =>
      obtain rfl := hvw
      simp

section
variable {codec : Codec} {request : ChatCompletionRequest} {client : Value} (hrange : PrintsInRange codec.numbers)
include hrange

/-- A message that is redacted is the redacted message where it is an object and its calls
print as before: an array keeps the text that was found. -/
theorem redactedMessage_iff {m : NativeChatMessage} (hkept : KeptMessage codec.numbers codec.order m) (k : Nat) (form : Bool)
    {text : String} (hpii : hasPii codec.unicode codec.guardrails.pii.categories (messageContentText m) = true)
    (hclean : hasPii codec.unicode codec.guardrails.pii.categories text = false) :
    (if form then redactContent text ((keptAgain codec.numbers codec.order)^[k] m)
        else (keptAgain codec.numbers codec.order)^[k] m) = redactContent text m ↔
      form = true ∧ ∀ v ∈ m.toolCalls, PrintsSame codec.numbers k v := by
  cases form with
  | true =>
    rw [if_pos rfl, redactContent_iterate_eq_iff hrange hkept]
    simp
  | false =>
    refine iff_of_false (fun heq => ?_) (fun h => Bool.false_ne_true h.1)
    rw [if_neg Bool.false_ne_true, keptAgain_iterate] at heq
    have hcontent : m.content.map (again codec.numbers codec.order)^[k] = some (.string text) :=
      congrArg NativeChatMessage.content heq
    obtain ⟨v, hv, hstring⟩ := Option.map_eq_some_iff.mp hcontent
    have hm : m.content = some (.string text) := by rw [hv, iterate_string hrange (hkept.1 v hv) hstring]
    have htext : messageContentText m = text := by rw [messageContentText, hm]
    rw [htext, hclean] at hpii
    cases hpii

/-- The messages that are read of the body that is sent are the redacted messages of the
request where those that are redacted are objects and the others print as before. -/
theorem redacted_iff (hkept : ∀ m ∈ request.messages, KeptMessage codec.numbers codec.order m) (k : Nat)
    {redactions : List (Nat × String)}
    (hredactions : redactions = (evaluate codec.unicode (messageTexts request) codec.guardrails).redactions) :
    redactions.foldl (redactObject (objectMessage client)) (request.messages.map (keptAgain codec.numbers codec.order)^[k]) =
        redactions.foldl redactStruct request.messages ↔
      (∀ r ∈ redactions, objectMessage client r.1 = true) ∧
        (∀ i m, request.messages[i]? = some m → redactions.lookup i = none →
          ∀ v ∈ m.content, PrintsSame codec.numbers k v) ∧
        ∀ m ∈ request.messages, ∀ v ∈ m.toolCalls, PrintsSame codec.numbers k v := by
  have hnodup : (redactions.map (·.1)).Nodup := hredactions ▸ nodup_redactions codec.unicode codec.guardrails request
  have hmem : ∀ r ∈ redactions, ∃ m, request.messages[r.1]? = some m ∧
      hasPii codec.unicode codec.guardrails.pii.categories (messageContentText m) = true ∧
      hasPii codec.unicode codec.guardrails.pii.categories r.2 = false := by
    rw [hredactions]
    exact fun r hr => mem_redactions codec.unicode codec.guardrails request hr
  have hleft := getElem?_foldl_modify
    (fun i text m => if objectMessage client i then redactContent text m else m) hnodup
    (request.messages.map (keptAgain codec.numbers codec.order)^[k])
  have hright := getElem?_foldl_modify (fun _ => redactContent) hnodup request.messages
  have hlists : redactions.foldl (redactObject (objectMessage client))
      (request.messages.map (keptAgain codec.numbers codec.order)^[k]) = redactions.foldl redactStruct request.messages ↔
      ∀ i m, request.messages[i]? = some m →
        (redactions.lookup i).elim id (fun text m => if objectMessage client i then redactContent text m else m)
          ((keptAgain codec.numbers codec.order)^[k] m) =
        (redactions.lookup i).elim id redactContent m := by
    rw [List.ext_getElem?_iff]
    refine forall_congr' fun i => ?_
    have hl := hleft i
    have hr := hright i
    rw [List.getElem?_map] at hl
    rw [show (redactions.foldl (redactObject (objectMessage client)) _)[i]? = _ from hl,
      show (redactions.foldl redactStruct _)[i]? = _ from hr]
    cases request.messages[i]? with
    | none => simp
    | some m => simp
  have hat : ∀ i m, request.messages[i]? = some m →
      ((redactions.lookup i).elim id (fun text m => if objectMessage client i then redactContent text m else m)
          ((keptAgain codec.numbers codec.order)^[k] m) = (redactions.lookup i).elim id redactContent m ↔
        ((redactions.lookup i).isSome = true → objectMessage client i = true) ∧
          (redactions.lookup i = none → ∀ v ∈ m.content, PrintsSame codec.numbers k v) ∧
          ∀ v ∈ m.toolCalls, PrintsSame codec.numbers k v) := by
    intro i m hm
    have hkeptm := hkept m (List.mem_of_getElem? hm)
    cases hlookup : redactions.lookup i with
    | none =>
      rw [Option.elim_none, Option.elim_none, id_eq, id_eq, keptAgain_iterate_eq_iff hrange hkeptm]
      simp
    | some text =>
      obtain ⟨m', hm', hpii, hclean⟩ := hmem _ (mem_of_lookup hlookup)
      obtain rfl : m = m' := Option.some.inj (hm.symm.trans hm')
      rw [Option.elim_some, Option.elim_some, redactedMessage_iff hrange hkeptm k _ hpii hclean]
      simp
  rw [hlists]
  constructor
  · intro h
    refine ⟨fun r hr => ?_, fun i m hm => ((hat i m hm).mp (h i m hm)).2.1, fun m hm => ?_⟩
    · obtain ⟨m, hm, -⟩ := hmem r hr
      refine ((hat r.1 m hm).mp (h r.1 m hm)).1 ?_
      rw [lookup_redaction hnodup hr, Option.isSome_some]
    · obtain ⟨i, hi⟩ := List.mem_iff_getElem?.mp hm
      exact ((hat i m hi).mp (h i m hi)).2.2
  · rintro ⟨hobjects, hcontents, hcalls⟩ i m hm
    refine (hat i m hm).mpr ⟨fun hsome => ?_, hcontents i m hm, hcalls m (List.mem_of_getElem? hm)⟩
    obtain ⟨text, htext⟩ := Option.isSome_iff_exists.mp hsome
    exact hobjects _ (mem_of_lookup htext)

end

/-- The body that is sent for a request is faithful exactly where it can be written again. -/
theorem faithful_iff {codec : Codec} {st : ServerState} {body out : String} {client : Value} {request : ChatCompletionRequest}
    {redactions : List (Nat × String)} {route : ResolvedModelRoute} (hrange : PrintsInRange codec.numbers)
    (hbody : fromStr body = some client) (hparse : parse codec.numbers codec.order body = .ok request)
    (hroute : route.requestedAlias = request.model)
    (hredactions : redactions = (evaluate codec.unicode (messageTexts request) codec.guardrails).redactions)
    (hforward : forward codec st body redactions route = .ok out) :
    Faithful codec client request redactions route out ↔
      Rewritable codec.numbers (writes redactions route) client request redactions := by
  obtain ⟨sent, hsent, hmodel, hmessages⟩ := parse_forward hrange hbody hparse hroute hforward
  obtain ⟨w, hw, hfollow⟩ := follow_forward hbody hforward
  have hiff := @redacted_iff codec request client hrange (parse_kept hparse) (writes redactions route) redactions hredactions
  constructor
  · rintro ⟨⟨sent', hsent', hredacted, -⟩, w', hw', hleaf⟩
    obtain rfl : sent = sent' := Except.ok.inj (hsent.symm.trans hsent')
    obtain rfl : w = w' := Option.some.inj (hw.symm.trans hw')
    rw [hmessages, hiff] at hredacted
    obtain ⟨hobjects, hcontents, hcalls⟩ := hredacted
    exact ⟨hobjects, fun p text hp => (leaf_eq_iff (hfollow p hp)).mp (hleaf p hp) text, hcontents, hcalls⟩
  · rintro ⟨hobjects, hvalues, hcontents, hcalls⟩
    refine ⟨⟨sent, hsent, ?_, hmodel⟩, w, hw, fun p hp => (leaf_eq_iff (hfollow p hp)).mpr fun text => hvalues p text hp⟩
    rw [hmessages, hiff]
    exact ⟨hobjects, hcontents, hcalls⟩

/-- The tables of Unicode on ASCII. -/
def asciiTables : Unicode where
  decimal := Char.isDigit
  space c := c == ' ' || (9 ≤ c.toNat && c.toNat ≤ 13)
  word c := c.isAlphanum || c == '_'
  toLowercase := String.toLower
  decimal_ascii _ _ := rfl
  space_ascii _ _ := rfl

def lightToHeavy : ResolvedModelRoute := ⟨"light", "heavy", [], none⟩

def redactingCodec : Codec where
  numbers := .written
  order := .sorted
  unicode := asciiTables
  guardrails := { pii := { action := .redact } }
  errorText _ _ := ""

theorem written_inRange : PrintsInRange .written := by
  intro text printed h
  have hprinted : isNumber printed = true := Numbers.written.printed h
  simp only [Numbers.written, if_pos hprinted, Option.isSome_some]

def mail (text model : String) : Value :=
  .object [("messages", .array [.object [("content", .string text), ("role", .string "user")]]), ("model", .string model)]

def mailRequest : ChatCompletionRequest :=
  ⟨"light", [{ role := "user", content := some (.string "mail a@b.co") }], false, none, none, none⟩

theorem forward_mail {body mid out : String} {r : Nat × String}
    (hmessages : setMessages .written .sorted body [r] = .ok mid) (hmodel : setModel .written .sorted mid "heavy" = .ok out) :
    forward redactingCodec oneModelNode body [r] lightToHeavy = .ok out := by
  have hne : ¬ lightToHeavy.requestedAlias = lightToHeavy.upstreamAlias := by decide
  have hredacted : applyMessageRedactions (redactingCodec.serving oneModelNode) body [r] = .ok mid := hmessages
  have hrewritten : rewriteChatModel (redactingCodec.serving oneModelNode) mid lightToHeavy = .ok out := by
    rw [rewriteChatModel, if_neg hne]
    exact hmodel
  rw [forward, hredacted]
  exact hrewritten

theorem mail_redacted : Faithful redactingCodec (mail "mail a@b.co" "light") mailRequest [(0, "mail [REDACTED:EMAIL]")] lightToHeavy
    (mail "mail [REDACTED:EMAIL]" "heavy").render := by
  have hbody : ∀ text model, fromStr (mail text model).render = some (mail text model) := fun _ _ =>
    fromStr_render ⟨⟨⟨trivial, trivial, trivial⟩, trivial⟩, trivial, trivial⟩
  have hparse : parse redactingCodec.numbers redactingCodec.order (mail "mail a@b.co" "light").render = .ok mailRequest := by
    rw [parse, hbody]
    rfl
  have hredactions : [(0, "mail [REDACTED:EMAIL]")] =
      (evaluate redactingCodec.unicode (messageTexts mailRequest) redactingCodec.guardrails).redactions := by
    decide +kernel
  have hmessages : setMessages .written .sorted (mail "mail a@b.co" "light").render [(0, "mail [REDACTED:EMAIL]")] =
      .ok (mail "mail [REDACTED:EMAIL]" "light").render := by
    rw [setMessages, Value.read, hbody]
    rfl
  have hmodel : setModel .written .sorted (mail "mail [REDACTED:EMAIL]" "light").render "heavy" =
      .ok (mail "mail [REDACTED:EMAIL]" "heavy").render := by
    rw [setModel, Value.read, hbody]
    rfl
  refine (faithful_iff written_inRange (hbody _ _) hparse rfl hredactions (forward_mail hmessages hmodel)).mpr ⟨?_, ?_, ?_, ?_⟩
  · simp only [List.forall_mem_singleton]
    decide
  · intro p text _ h
    cases mem_numbersOf_of_follow h
  · intro i m hm _ v hv t ht
    obtain rfl := List.mem_singleton.mp (List.mem_of_getElem? hm)
    obtain rfl := Option.some.inj hv
    cases ht
  · simp [mailRequest]

/-! ### A number that does not print as before -/

def longNumber : String := "12345678901234567890123"

/-- Numbers that print as they were written, but for one that is printed as the `f64` that
it is read as. -/
def longNumbers : Numbers where
  read text := if text = longNumber then some "1.2345678901234568e22" else Numbers.written.read text
  printed {text number} h := by
    split at h
    · cases h
      decide
    · exact Numbers.written.printed h
  nat n hn := by
    rw [if_neg]
    · exact Numbers.written.nat n hn
    · intro heq
      have hvalue := asU64_repr hn
      have hnone : asU64 (number longNumber) = none := by decide +kernel
      rw [heq, hnone] at hvalue
      cases hvalue

def longCodec : Codec where
  numbers := longNumbers
  order := .sorted
  unicode := asciiTables
  guardrails := {}
  errorText _ _ := ""

def traced : Value :=
  .object [("messages", .array []), ("model", .string "light"), ("trace_id", .number longNumber)]

def tracedRequest : ChatCompletionRequest := ⟨"light", [], false, none, none, none⟩

def sentHeavy : Value :=
  .object [("messages", .array []), ("model", .string "heavy"), ("trace_id", .number "1.2345678901234568e22")]

theorem longNumber_value : numberValue longNumber ≠ numberValue "1.2345678901234568e22" := by decide +kernel

theorem long_number_changed :
    fromStr "\x7b\"messages\":[],\"model\":\"light\",\"trace_id\":12345678901234567890123\x7d" = some traced ∧
      parse longNumbers .sorted "\x7b\"messages\":[],\"model\":\"light\",\"trace_id\":12345678901234567890123\x7d" =
        .ok tracedRequest ∧
      (evaluate asciiTables (messageTexts tracedRequest) {}).redactions = [] ∧
      forward longCodec oneModelNode "\x7b\"messages\":[],\"model\":\"light\",\"trace_id\":12345678901234567890123\x7d" []
          lightToHeavy = .ok "\x7b\"messages\":[],\"model\":\"heavy\",\"trace_id\":1.2345678901234568e22\x7d" ∧
      ¬ Faithful longCodec traced tracedRequest [] lightToHeavy
          "\x7b\"messages\":[],\"model\":\"heavy\",\"trace_id\":1.2345678901234568e22\x7d" := by
  have hrender : "\x7b\"messages\":[],\"model\":\"light\",\"trace_id\":12345678901234567890123\x7d" = traced.render := by
    decide +kernel
  have hbody : fromStr traced.render = some traced :=
    fromStr_render ⟨trivial, trivial, (by decide : isNumber longNumber = true), trivial⟩
  have hsent : fromStr sentHeavy.render = some sentHeavy :=
    fromStr_render ⟨trivial, trivial, (by decide : isNumber "1.2345678901234568e22" = true), trivial⟩
  have hout : sentHeavy.render = "\x7b\"messages\":[],\"model\":\"heavy\",\"trace_id\":1.2345678901234568e22\x7d" := by
    decide +kernel
  rw [hrender]
  refine ⟨hbody, ?_, ?_, ?_, ?_⟩
  · rw [parse, hbody]
    rfl
  · rfl
  · have hset : setModel longNumbers .sorted traced.render "heavy" = .ok sentHeavy.render := by
      rw [setModel, Value.read, hbody]
      rfl
    have hne : ¬ lightToHeavy.requestedAlias = lightToHeavy.upstreamAlias := by decide
    rw [← hout]
    generalize traced.render = body at hset ⊢
    simp only [forward, applyMessageRedactions, List.isEmpty_nil, if_true, rewriteChatModel, if_neg hne, bind, Except.bind]
    exact hset
  · rintro ⟨-, sent, hsent', hothers⟩
    rw [← hout, hsent] at hsent'
    obtain rfl := Option.some.inj hsent'
    have hleaf := hothers [.key "trace_id"] ⟨by decide, List.forall_mem_nil _⟩
    have htraced : follow [.key "trace_id"] traced = some (.number longNumber) := rfl
    have hheavy : follow [.key "trace_id"] sentHeavy = some (.number "1.2345678901234568e22") := rfl
    rw [htraced, hheavy] at hleaf
    exact longNumber_value (Leaf.number.inj (Option.some.inj hleaf))

end Llmctl.ChatBody
