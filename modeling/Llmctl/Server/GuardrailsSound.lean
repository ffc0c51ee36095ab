import Llmctl.Server.Guardrails

/-!
# What a redaction leaves

A text that was redacted holds no match of a category that was selected: a marker joins with
nothing around it, the patterns of whole words cut where words begin and end, and a card or
a social security number that is left would hold a phone number.
-/

namespace Llmctl.Guardrails

open Regex

/-! ## Markers -/

def isMarkerChar (c : Char) : Bool := decide (c.toNat < 128) && !c.isDigit && !c.isLower && c != '@'

section
variable (u : Unicode)

theorem marker_chars {pattern : String × Regex} (h : pattern ∈ piiPatterns u) :
    ∀ c ∈ '[' :: markerInner pattern.1, isMarkerChar c = true := by
  have hall : (["email", "credit-card", "ssn", "phone", "api-key"].all fun category =>
      ('[' :: markerInner category).all isMarkerChar) = true := by decide +kernel
  have hmem : pattern.1 ∈ (piiPatterns u).map (·.1) := List.mem_map.mpr ⟨pattern, h, rfl⟩
  exact List.all_eq_true.mp (List.all_eq_true.mp hall pattern.1 hmem)

theorem not_decimal_of_marker {c : Char} (h : isMarkerChar c = true) : ¬ u.decimal c = true := by
  simp only [isMarkerChar, Bool.and_eq_true, decide_eq_true_eq] at h
  rw [u.decimal_ascii c h.1.1.1]
  simpa using h.1.1.2

/-! ## The patterns and the markers -/

theorem brackets_decimal : u.decimal '[' = false ∧ u.decimal ']' = false :=
  ⟨u.decimal_ascii '[' (by decide), u.decimal_ascii ']' (by decide)⟩

theorem brackets_space : u.space '[' = false ∧ u.space ']' = false :=
  ⟨u.space_ascii '[' (by decide), u.space_ascii ']' (by decide)⟩

variable {u} {inner : List Char} (hinner : ∀ c ∈ '[' :: inner, isMarkerChar c = true)
include hinner

theorem email_apart : Apart email '[' inner ']' where
  wellFormed := rfl
  brackets := by
    simp only [email, many, Forall]
    decide
  needs := by
    refine ⟨(· = '@'), .inr (.inl fun c hc => by simpa using hc), ?_⟩
    rintro c hc rfl
    exact absurd (hinner _ hc) (by decide)

theorem creditCard_apart : Apart (creditCard u) '[' inner ']' where
  wellFormed := rfl
  brackets := by
    have hdecimal := brackets_decimal u
    simp [creditCard, wholeWords, Forall, hdecimal]
  needs := ⟨(u.decimal · = true), .inr (.inl ⟨by decide, .inl fun _ => id⟩), fun c hc => not_decimal_of_marker u (hinner c hc)⟩

theorem ssn_apart : Apart (ssn u) '[' inner ']' where
  wellFormed := rfl
  brackets := by
    have hdecimal := brackets_decimal u
    simp [ssn, digits, wholeWords, Forall, hdecimal]
  needs := ⟨(u.decimal · = true), .inr (.inl (.inl ⟨by decide, fun _ => id⟩)), fun c hc => not_decimal_of_marker u (hinner c hc)⟩

theorem phone_apart : Apart (phone u) '[' inner ']' where
  wellFormed := rfl
  brackets := by
    have hdecimal := brackets_decimal u
    have hspace := brackets_space u
    simp [phone, many, isPhoneChar, Forall, hdecimal, hspace]
  needs := ⟨(u.decimal · = true), .inr (.inl fun _ => id), fun c hc => not_decimal_of_marker u (hinner c hc)⟩

theorem apiKey_apart : Apart (apiKey u) '[' inner ']' where
  wellFormed := rfl
  brackets := by
    have hlit : ∀ (c : Char) (s : List Char), '[' ∉ c :: s → ']' ∉ c :: s →
        (lit c s).Forall (fun p => p '[' = false ∧ p ']' = false) fun _ => True := by
      intro c s hopen hclose
      refine forall_lit fun d hd => ⟨?_, ?_⟩
      · exact beq_eq_false_iff_ne.mpr fun h => hopen (h ▸ hd)
      · exact beq_eq_false_iff_ne.mpr fun h => hclose (h ▸ hd)
    refine ⟨trivial, ⟨⟨?_, ?_, ?_, ?_, ?_, ?_, ?_, ?_, ?_, ?_⟩, ?_⟩, trivial⟩
    case refine_10 => exact ⟨by decide, by decide⟩
    case refine_11 => exact ⟨by decide, by decide⟩
    all_goals exact hlit _ _ (by decide) (by decide)
  needs := by
    have hlower : ∀ {c : Char}, c.isLower = true → ∀ s, (lit c s).Needs (·.isLower = true) := fun h s => needs_lit h s
    refine ⟨(·.isLower = true), .inr (.inl (.inl ?_)), ?_⟩
    · exact ⟨hlower rfl _, hlower rfl _, hlower rfl _, hlower rfl _, hlower rfl _, hlower rfl _, hlower rfl _, hlower rfl _,
        .inl (hlower rfl _)⟩
    · intro c hc hlow
      have hmarker := hinner c hc
      simp [isMarkerChar, hlow] at hmarker

end

section
variable {u : Unicode}

theorem apart_of_mem {q r : String × Regex} (hq : q ∈ piiPatterns u) (hr : r ∈ piiPatterns u) :
    Apart q.2 '[' (markerInner r.1) ']' := by
  have hinner := marker_chars u hr
  simp only [piiPatterns, List.mem_cons, List.not_mem_nil, or_false] at hq
  rcases hq with rfl | rfl | rfl | rfl | rfl
  · exact email_apart hinner
  · exact creditCard_apart hinner
  · exact ssn_apart hinner
  · exact phone_apart hinner
  · exact apiKey_apart hinner

theorem consumes_of_mem {r : String × Regex} (h : r ∈ piiPatterns u) : r.2.consumes = true := by
  simp only [piiPatterns, List.mem_cons, List.not_mem_nil, or_false] at h
  rcases h with rfl | rfl | rfl | rfl | rfl <;> rfl

/-! ## Phone numbers within cards and social security numbers -/

theorem phone_of_run {x : Place} {d e : Char} {mid rest : List Char} (hx : x.after = d :: mid ++ e :: rest)
    (hd : u.decimal d = true) (he : u.decimal e = true) (hmid : ∀ c ∈ mid, isPhoneChar u c = true) (hlen : 7 ≤ mid.length) :
    ends (phone u) x ≠ [] := by
  let y : Place := ⟨some d, mid ++ e :: rest⟩
  let z : Place := ⟨mid.getLast?.or (some d), e :: rest⟩
  have hplus : x ∈ ends (rep (cls (· == '+')) 0 (some 1)) x :=
    (mem_ends_rep (.inl rfl)).mpr ⟨x, List.mem_cons_self, 0, fun _ _ => Nat.zero_le _, List.mem_cons_self⟩
  have hy : y ∈ ends (cls u.decimal) x := mem_ends_cls.mpr ⟨d, hx, rfl, hd⟩
  have hz : z ∈ ends (many (isPhoneChar u) 7) y := mem_ends_many ⟨rfl, rfl⟩ hlen hmid
  have hend : (⟨some e, rest⟩ : Place) ∈ ends (cls u.decimal) z := mem_ends_cls.mpr ⟨e, rfl, rfl, he⟩
  exact List.ne_nil_of_mem (mem_ends_seq.mpr ⟨x, hplus, mem_ends_seq.mpr ⟨y, hy, mem_ends_seq.mpr ⟨z, hz, hend⟩⟩⟩)

theorem isPhoneChar_decimal {c : Char} (h : u.decimal c = true) : isPhoneChar u c = true := by
  simp [isPhoneChar, h]

theorem isPhoneChar_separator {c : Char} (h : [' ', '-'].contains c = true) : isPhoneChar u c = true := by
  have hspace : u.space ' ' = true := u.space_ascii ' ' (by decide)
  simp only [List.contains_cons, List.contains_nil, Bool.or_false, Bool.or_eq_true, beq_iff_eq] at h
  rcases h with rfl | rfl <;> simp [isPhoneChar, hspace]

def cardDigit (u : Unicode) : Regex := seq (cls u.decimal) (rep (cls fun c => [' ', '-'].contains c) 0 (some 1))

theorem over_of_mem_cardDigit {x y : Place} (h : y ∈ ends (cardDigit u) x) :
    ∃ d sep, x.after = d :: sep ++ y.after ∧ u.decimal d = true ∧ ∀ c ∈ sep, isPhoneChar u c = true := by
  obtain ⟨z, hz, hrest⟩ := mem_ends_seq.mp h
  obtain ⟨d, hx, -, hd⟩ := mem_ends_cls.mp hz
  obtain ⟨v, hv, k, -, hy⟩ := (mem_ends_rep (.inl rfl)).mp hrest
  obtain rfl := List.mem_singleton.mp hv
  obtain ⟨sep, hsep, -, hall⟩ := mem_exactly_cls.mp hy
  exact ⟨d, sep, by rw [hx, hsep.1, List.cons_append], hd, fun c hc => isPhoneChar_separator (hall c hc)⟩

/-- Between the first digit and the last there are as many characters as other digits. -/
theorem run_of_cardDigits {k : Nat} {x y : Place} (h : y ∈ exactly (ends (cardDigit u)) (k + 2) x) :
    ∃ d mid e rest, x.after = d :: mid ++ e :: rest ∧ u.decimal d = true ∧ u.decimal e = true ∧
      (∀ c ∈ mid, isPhoneChar u c = true) ∧ k ≤ mid.length := by
  induction k generalizing x with
  | zero =>
    obtain ⟨z, hz, hy⟩ := mem_exactly_succ.mp h
    obtain ⟨z', hz', -⟩ := mem_exactly_succ.mp hy
    obtain ⟨d, sep, hx, hd, hsep⟩ := over_of_mem_cardDigit hz
    obtain ⟨e, sep', hz, he, -⟩ := over_of_mem_cardDigit hz'
    exact ⟨d, sep, e, sep' ++ z'.after, by simp [hx, hz], hd, he, hsep, Nat.zero_le _⟩
  | succ k ih =>
    obtain ⟨z, hz, hy⟩ := mem_exactly_succ.mp h
    obtain ⟨d, sep, hx, hd, hsep⟩ := over_of_mem_cardDigit hz
    obtain ⟨d', mid, e, rest, hz, hd', he, hmid, hlen⟩ := ih hy
    refine ⟨d, sep ++ d' :: mid, e, rest, by simp [hx, hz], hd, he, ?_, by simp; omega⟩
    exact List.forall_mem_append.mpr ⟨hsep, List.forall_mem_cons.mpr ⟨isPhoneChar_decimal hd', hmid⟩⟩

theorem exists_of_wholeWords {r : Regex} {x : Place} (h : ends (wholeWords u r) x ≠ []) : ∃ y, y ∈ ends r x := by
  obtain ⟨z, hz⟩ := List.exists_mem_of_ne_nil _ h
  obtain ⟨x', hx', hinner⟩ := mem_ends_seq.mp hz
  obtain ⟨y, hy, -⟩ := mem_ends_seq.mp hinner
  rw [(mem_ends_boundary.mp hx').2] at hy
  exact ⟨y, hy⟩

theorem phone_of_creditCard (x : Place) (h : ends (creditCard u) x ≠ []) : ends (phone u) x ≠ [] := by
  obtain ⟨z, hz⟩ := exists_of_wholeWords h
  obtain ⟨v, hv, -⟩ := (mem_ends_rep (.inl rfl)).mp hz
  obtain ⟨d, mid, e, rest, hx, hd, he, hmid, hlen⟩ := run_of_cardDigits hv
  exact phone_of_run hx hd he hmid (by omega)

theorem over_of_mem_dash {x y : Place} (h : y ∈ ends (cls (· == '-')) x) : x.after = '-' :: y.after := by
  obtain ⟨c, hx, -, hc⟩ := mem_ends_cls.mp h
  rw [hx, eq_of_beq hc]

theorem phone_of_ssn (x : Place) (h : ends (ssn u) x ≠ []) : ends (phone u) x ≠ [] := by
  obtain ⟨y, hy⟩ := exists_of_wholeWords h
  obtain ⟨p, hp, hrest⟩ := mem_ends_seq.mp hy
  obtain ⟨q, hq, hrest⟩ := mem_ends_seq.mp hrest
  obtain ⟨r, hr, hrest⟩ := mem_ends_seq.mp hrest
  obtain ⟨s, hs, hrest⟩ := mem_ends_seq.mp hrest
  obtain ⟨area, harea, harea_len, harea_digits⟩ := over_of_mem_times hp
  obtain ⟨group, hgroup, hgroup_len, hgroup_digits⟩ := over_of_mem_times hr
  obtain ⟨serial, hserial, hserial_len, hserial_digits⟩ := over_of_mem_times hrest
  have hx : x.after = area ++ '-' :: (group ++ '-' :: (serial ++ y.after)) := by
    rw [harea.1, over_of_mem_dash hq, hgroup.1, over_of_mem_dash hs, hserial.1]
  obtain ⟨d, area, rfl⟩ := List.exists_cons_of_length_pos (by omega : 0 < area.length)
  obtain ⟨serial, e, rfl⟩ := (List.eq_nil_or_concat serial).resolve_left (by rintro rfl; cases hserial_len)
  obtain ⟨hd, harea_digits⟩ := List.forall_mem_cons.mp harea_digits
  obtain ⟨hserial_digits, he⟩ := List.forall_mem_append.mp (List.concat_eq_append ▸ hserial_digits)
  have hdash : isPhoneChar u '-' = true := isPhoneChar_separator (by decide)
  have hdigits : ∀ {w : List Char}, (∀ c ∈ w, u.decimal c = true) → ∀ c ∈ w, isPhoneChar u c = true :=
    fun h c hc => isPhoneChar_decimal (h c hc)
  refine @phone_of_run u x d e (area ++ '-' :: (group ++ '-' :: serial)) y.after ?_ hd (he e (List.mem_singleton.mpr rfl)) ?_ ?_
  · simp [hx]
  · simp only [List.forall_mem_append, List.forall_mem_cons]
    exact ⟨hdigits harea_digits, hdash, hdigits hgroup_digits, hdash, hdigits hserial_digits⟩
  · simp at harea_len hgroup_len hserial_len ⊢
    omega

/-! ## Redacted texts -/

theorem redactWith_self {r : String × Regex} (hr : r ∈ piiPatterns u)
    (hdelimited : r.2.Forall (fun _ => True) fun word => Delimited word r.2) (text : List Char) :
    r.2.isMatch (redactWith text r) = false := by
  unfold redactWith
  by_cases hmatch : r.2.isMatch text = true
  · rw [if_pos hmatch]
    exact isMatch_replaceAll_self (consumes_of_mem hr) (apart_of_mem hr hr) hdelimited text
  · rw [if_neg hmatch]
    simpa using hmatch

theorem redactWith_keeps {q r : String × Regex} (hq : q ∈ piiPatterns u) (hr : r ∈ piiPatterns u)
    (hdelimited : q.2.Forall (fun _ => True) fun word => Delimited word r.2) {text : List Char}
    (h : q.2.isMatch text = false) : q.2.isMatch (redactWith text r) = false := by
  unfold redactWith
  split
  · exact isMatch_replaceAll (consumes_of_mem hr) (apart_of_mem hq hr) hdelimited h
  · exact h

/-- Later patterns leave a text without a match of the earlier one. -/
def Keeps (q r : String × Regex) : Prop := ∀ text, q.2.isMatch text = false → q.2.isMatch (redactWith text r) = false

theorem foldl_redactWith {rs : List (String × Regex)} (hself : ∀ r ∈ rs, ∀ text, r.2.isMatch (redactWith text r) = false)
    (hkeeps : rs.Pairwise Keeps) (text : List Char) : ∀ r ∈ rs, r.2.isMatch (rs.foldl redactWith text) = false := by
  have hlater : ∀ {q : String × Regex} {rs : List (String × Regex)}, (∀ r ∈ rs, Keeps q r) → ∀ {text},
      q.2.isMatch text = false → q.2.isMatch (rs.foldl redactWith text) = false := by
    intro q rs
    induction rs with
    | nil => exact fun _ _ h => h
    | cons r rs ih =>
      intro hkeeps text h
      obtain ⟨hr, hkeeps⟩ := List.forall_mem_cons.mp hkeeps
      exact ih hkeeps (hr text h)
  induction rs generalizing text with
  | nil => nofun
  | cons r rs ih =>
    obtain ⟨hr, hself⟩ := List.forall_mem_cons.mp hself
    obtain ⟨hfirst, hkeeps⟩ := List.pairwise_cons.mp hkeeps
    exact List.forall_mem_cons.mpr ⟨hlater hfirst (hr text), ih hself hkeeps _⟩

/-! ### The patterns in their order -/

theorem email_delimited (B : (Char → Bool) → Prop) : email.Forall (fun _ => True) B := by
  simp [email, many, Forall]

theorem phone_delimited (B : (Char → Bool) → Prop) : (phone u).Forall (fun _ => True) B := by
  simp [phone, many, Forall]

/-- Patterns of whole words have their boundaries where others of whole words stop. -/
theorem wholeWords_delimited {q r : Regex} (hq : q.Forall (fun _ => True) fun _ => False) :
    (wholeWords u q).Forall (fun _ => True) fun word => Delimited word (wholeWords u r) :=
  ⟨delimited_of_boundaries u.word r, hq.imp (fun _ _ => trivial) fun _ => False.elim, delimited_of_boundaries u.word r⟩

theorem creditCard_delimited (r : Regex) :
    (creditCard u).Forall (fun _ => True) fun word => Delimited word (wholeWords u r) :=
  wholeWords_delimited (by simp [Forall])

theorem ssn_delimited (r : Regex) : (ssn u).Forall (fun _ => True) fun word => Delimited word (wholeWords u r) :=
  wholeWords_delimited (by simp [digits, Forall])

theorem apiKey_delimited (r : Regex) : (apiKey u).Forall (fun _ => True) fun word => Delimited word (wholeWords u r) := by
  have hlit : ∀ (c : Char) (s : List Char), (lit c s).Forall (fun _ => True) fun _ => False :=
    fun c s => forall_lit fun _ _ => trivial
  refine wholeWords_delimited ⟨⟨hlit _ _, hlit _ _, hlit _ _, hlit _ _, hlit _ _, hlit _ _, hlit _ _, hlit _ _, hlit _ _, ?_⟩, ?_⟩
  · trivial
  · trivial

theorem redactWith_self_of_mem {r : String × Regex} (hr : r ∈ piiPatterns u) (text : List Char) :
    r.2.isMatch (redactWith text r) = false := by
  refine redactWith_self hr ?_ text
  simp only [piiPatterns, List.mem_cons, List.not_mem_nil, or_false] at hr
  rcases hr with rfl | rfl | rfl | rfl | rfl
  · exact email_delimited _
  · exact creditCard_delimited _
  · exact ssn_delimited _
  · exact phone_delimited _
  · exact apiKey_delimited _

theorem piiPatterns_keeps : (piiPatterns u).Pairwise Keeps := by
  have hmem : ∀ q ∈ piiPatterns u, q ∈ piiPatterns u := fun _ => id
  simp only [piiPatterns, List.forall_mem_cons] at hmem
  obtain ⟨hemail, hcard, hssn, hphone, hkey, -⟩ := hmem
  -- what a phone number leaves has no phone number, so it has no card and no social security number
  have hbefore : ∀ {q : Regex}, (∀ x, ends q x ≠ [] → ends (phone u) x ≠ []) → ∀ text, q.isMatch (redactWith text ("phone", phone u)) = false := by
    intro q hq text
    by_contra hmatch
    have hmatch : q.isMatch (redactWith text ("phone", phone u)) = true := by simpa using hmatch
    have hfound : (phone u).isMatch (redactWith text ("phone", phone u)) = true := isMatchAt_of_ends hq hmatch
    rw [redactWith_self_of_mem hphone text] at hfound
    cases hfound
  unfold piiPatterns
  simp only [List.pairwise_cons, List.forall_mem_cons]
  refine ⟨⟨?_, ?_, ?_, ?_, nofun⟩, ⟨?_, ?_, ?_, nofun⟩, ⟨?_, ?_, nofun⟩, ⟨?_, nofun⟩, ⟨nofun, .nil⟩⟩
  · exact fun text h => redactWith_keeps hemail hcard (email_delimited _) h
  · exact fun text h => redactWith_keeps hemail hssn (email_delimited _) h
  · exact fun text h => redactWith_keeps hemail hphone (email_delimited _) h
  · exact fun text h => redactWith_keeps hemail hkey (email_delimited _) h
  · exact fun text h => redactWith_keeps hcard hssn (creditCard_delimited _) h
  · exact fun text _ => hbefore phone_of_creditCard text
  · exact fun text h => redactWith_keeps hcard hkey (creditCard_delimited _) h
  · exact fun text _ => hbefore phone_of_ssn text
  · exact fun text h => redactWith_keeps hssn hkey (ssn_delimited _) h
  · exact fun text h => redactWith_keeps hphone hkey (phone_delimited _) h

/-! ## Texts with personal data -/

/-- The text holds a match of a selected category. -/
def hasPii (u : Unicode) (categories : List String) (text : String) : Bool :=
  ((piiPatterns u).filter fun pattern => categorySelected pattern.1 categories).any fun pattern =>
    pattern.2.isMatch text.toList

theorem hasPii_redactPii (u : Unicode) (categories : List String) (text : String) :
    hasPii u categories (redactPii u text categories) = false := by
  have hfilter := foldl_redactWith (fun r hr => redactWith_self_of_mem (u := u) (List.mem_filter.mp hr).1)
    (piiPatterns_keeps.filter fun pattern => categorySelected pattern.1 categories) text.toList
  rw [hasPii, List.any_eq_false]
  intro r hr
  rw [redactPii, String.toList_ofList, hfilter r hr]
  exact Bool.false_ne_true

theorem hasPii_eq_false_iff {categories : List String} {text : String} :
    hasPii u categories text = false ↔ ∀ pattern ∈ piiPatterns u, categorySelected pattern.1 categories = true →
      pattern.2.isMatch text.toList = false := by
  simp only [hasPii, List.any_eq_false, List.mem_filter, Bool.not_eq_true, and_imp]

/-- A text without a match is left as it is. -/
theorem redactPii_of_not_hasPii {categories : List String} {text : String} (h : hasPii u categories text = false) :
    redactPii u text categories = text := by
  have hnone := hasPii_eq_false_iff.mp h
  have hfold : ∀ patterns : List (String × Regex), (∀ pattern ∈ patterns, pattern.2.isMatch text.toList = false) →
      patterns.foldl redactWith text.toList = text.toList := by
    intro patterns hpatterns
    induction patterns with
    | nil => rfl
    | cons pattern patterns ih =>
      have hhead : redactWith text.toList pattern = text.toList := by
        rw [redactWith, hpatterns pattern (List.mem_cons_self ..), if_neg Bool.false_ne_true]
      rw [List.foldl_cons, hhead]
      exact ih fun pattern' hmem => hpatterns pattern' (List.mem_cons_of_mem _ hmem)
  rw [redactPii, hfold _ fun pattern hmem => ?_, String.ofList_toList]
  obtain ⟨hmem, hselected⟩ := List.mem_filter.mp hmem
  exact hnone pattern hmem hselected

/-- A redacted text has no match of a selected pattern, and a second redaction leaves it as it is. -/
theorem redactPii_complete (u : Unicode) (categories : List String) (text : String) :
    (∀ pattern ∈ piiPatterns u, categorySelected pattern.1 categories = true →
      pattern.2.isMatch (redactPii u text categories).toList = false) ∧
    redactPii u (redactPii u text categories) categories = redactPii u text categories := by
  have hclean := hasPii_redactPii u categories text
  exact ⟨hasPii_eq_false_iff.mp hclean, redactPii_of_not_hasPii hclean⟩

theorem piiHit_isSome {pattern : String × Regex} (h : pattern ∈ piiPatterns u) (text : String) :
    (piiHit text pattern).isSome = pattern.2.isMatch text.toList := by
  have hpos := countMatches_pos (consumes_of_mem h) text.toList
  unfold piiHit
  by_cases hmatch : pattern.2.isMatch text.toList = true
  · simp [hpos.mpr hmatch, hmatch]
  · have hzero : pattern.2.countMatches text.toList = 0 := by
      by_contra hne
      exact hmatch (hpos.mp (Nat.pos_of_ne_zero hne))
    simp [hzero, hmatch]

/-- A scan finds something where the text holds a match. -/
theorem scan_pii {cfg : GuardrailsConfig} (hactive : cfg.pii.action.isActive = true) (text : String) :
    (!(scan u text cfg).pii.isEmpty) = hasPii u cfg.pii.categories text := by
  rw [scan, if_pos hactive, hasPii, Bool.eq_iff_iff, Bool.not_eq_true', List.isEmpty_eq_false_iff, ne_eq,
    List.filterMap_eq_nil_iff, List.any_eq_true]
  push Not
  refine exists_congr fun pattern => and_congr_right fun hmem => ?_
  rw [← piiHit_isSome (List.mem_filter.mp hmem).1, Option.isSome_iff_ne_none]

/-! ## Verdicts -/

/-- What a message with personal data is replaced by. -/
def redaction (u : Unicode) (cfg : GuardrailsConfig) (message : Nat × String) : Option (Nat × String) :=
  if hasPii u cfg.pii.categories message.2 then some (message.1, redactPii u message.2 cfg.pii.categories) else none

theorem evaluateMessage_redactions {cfg : GuardrailsConfig} (hredact : cfg.pii.action = .redact) (verdict : Verdict)
    (message : Nat × String) :
    (evaluateMessage u cfg verdict message).redactions = verdict.redactions ++ (redaction u cfg message).toList := by
  have hactive : cfg.pii.action.isActive = true := by rw [hredact]; rfl
  have hscan := scan_pii (u := u) hactive message.2
  simp only [evaluateMessage, hscan, hredact, beq_self_eq_true, Bool.and_true, redaction]
  by_cases hpii : hasPii u cfg.pii.categories message.2 = true <;> simp [hpii]

theorem evaluate_redactions {cfg : GuardrailsConfig} (hredact : cfg.pii.action = .redact) (messages : List (Nat × String)) :
    (evaluate u messages cfg).redactions = messages.filterMap (redaction u cfg) := by
  have hfold : ∀ verdict : Verdict, (messages.foldl (evaluateMessage u cfg) verdict).redactions =
      verdict.redactions ++ messages.filterMap (redaction u cfg) := by
    induction messages with
    | nil => simp
    | cons message messages ih =>
      intro verdict
      rw [List.foldl_cons, ih, evaluateMessage_redactions hredact, List.append_assoc, List.filterMap_cons]
      cases redaction u cfg message <;> rfl
  have hactive : cfg.isActive = true := by simp [GuardrailsConfig.isActive, hredact, GuardrailAction.isActive]
  simp only [evaluate, hactive, Bool.not_true, Bool.false_eq_true, if_false]
  exact (hfold {}).trans (List.nil_append _)

/-- Where personal data is not redacted, no message is replaced. -/
theorem evaluate_redactions_of_ne {cfg : GuardrailsConfig} (hredact : cfg.pii.action ≠ .redact) (messages : List (Nat × String)) :
    (evaluate u messages cfg).redactions = [] := by
  have hfold : ∀ verdict : Verdict, (messages.foldl (evaluateMessage u cfg) verdict).redactions = verdict.redactions := by
    induction messages with
    | nil => exact fun _ => rfl
    | cons message messages ih =>
      intro verdict
      rw [List.foldl_cons, ih]
      simp [evaluateMessage, hredact]
  unfold evaluate
  split
  · rfl
  · exact hfold {}

end

end Llmctl.Guardrails
