import Llmctl.Store.Connection

/-!
# What a displayed URL hides

The shown text leaves out what stands between the first colon after `://` and the last
at-sign before the first slash, and nothing else. A slash in a password ends the part
that is looked at, and a password parameter is behind it.
-/

namespace Llmctl

/-! ## Splitting -/

theorem ne_of_notMem {sep : Char} {s : List Char} (h : sep ∉ s) : ∀ c ∈ s, decide (c ≠ sep) = true :=
  fun _ hc => decide_eq_true fun heq => h (heq ▸ hc)

theorem splitOnce_append {sep : Char} {before : List Char} (h : sep ∉ before) (after : List Char) :
    splitOnce sep (before ++ sep :: after) = some (before, after) := by
  have hne := ne_of_notMem h
  have htake : (before ++ sep :: after).takeWhile (· ≠ sep) = before := by
    rw [List.takeWhile_append_of_pos hne]
    simp
  have hdrop : (before ++ sep :: after).dropWhile (· ≠ sep) = sep :: after := by
    rw [List.dropWhile_append_of_pos hne]
    simp
  unfold splitOnce
  rw [if_pos (by simp), htake, hdrop]
  rfl

theorem splitOnce_none {sep : Char} {s : List Char} (h : sep ∉ s) : splitOnce sep s = none := if_neg h

theorem rsplitOnce_append {sep : Char} {after : List Char} (h : sep ∉ after) (before : List Char) :
    rsplitOnce sep (before ++ sep :: after) = some (before, after) := by
  have hreverse : (before ++ sep :: after).reverse = after.reverse ++ sep :: before.reverse := by simp
  unfold rsplitOnce
  rw [hreverse, splitOnce_append (by simpa using h)]
  simp

theorem rsplitOnce_none {sep : Char} {s : List Char} (h : sep ∉ s) : rsplitOnce sep s = none := by
  unfold rsplitOnce
  rw [splitOnce_none (by simpa using h)]
  rfl

/-- A text in two parts around its last separator. -/
theorem exists_last {sep : Char} {s : List Char} (h : sep ∈ s) : ∃ before after, s = before ++ sep :: after ∧ sep ∉ after := by
  obtain ⟨after, before, hs, hnot⟩ := List.eq_append_cons_of_mem (List.mem_reverse.mpr h)
  refine ⟨before.reverse, after.reverse, ?_, by simpa using hnot⟩
  rw [← List.reverse_reverse s, hs]
  simp

/-- The first occurrence does not depend on what follows it. -/
theorem splitOnceText_append {sep : List Char} {s before after : List Char} (h : splitOnceText sep s = some (before, after))
    (other : List Char) : s = before ++ (sep ++ after) ∧ splitOnceText sep (before ++ (sep ++ other)) = some (before, other) := by
  have found (rest : List Char) : splitOnceText sep (sep ++ rest) = some ([], rest) := by
    cases sep with
    | nil => cases rest <;> simp [splitOnceText]
    | cons c sep => simp [splitOnceText]
  induction s generalizing before with
  | nil =>
    unfold splitOnceText at h
    split at h
    · rename_i hsep
      cases h
      rw [List.isEmpty_iff] at hsep
      subst hsep
      exact ⟨rfl, found other⟩
    · cases h
  | cons c s ih =>
    unfold splitOnceText at h
    split at h
    · rename_i hstart
      obtain ⟨rest, hrest⟩ := List.isPrefixOf_iff_prefix.mp hstart
      rw [← hrest, List.drop_left] at h
      cases h
      exact ⟨hrest.symm, found other⟩
    · rename_i hstart
      obtain ⟨⟨before', after'⟩, hsplit, heq⟩ := Option.map_eq_some_iff.mp h
      cases heq
      obtain ⟨hs, hother⟩ := ih hsplit
      refine ⟨by rw [hs]; rfl, ?_⟩
      have hnot : ¬ sep.isPrefixOf (c :: (before' ++ (sep ++ other))) = true := by
        rw [List.isPrefixOf_iff_prefix] at hstart ⊢
        intro hother'
        -- the separator would lie in front of what differs
        have hshort : sep <+: c :: (before' ++ sep) := by
          refine List.prefix_of_prefix_length_le hother' ⟨other, by simp⟩ ?_
          simp
          omega
        apply hstart
        rw [hs]
        exact hshort.trans ⟨after, by simp⟩
      rw [List.cons_append, splitOnceText, if_neg hnot, hother]
      rfl

/-! ## The hidden part -/

/-- What is shown of the part before the first slash. -/
def shownAuthority (authority : List Char) : List Char :=
  match rsplitOnce '@' authority with
  | none => authority
  | some (userinfo, host) =>
    (match splitOnce ':' userinfo with
    | some (user, _) => user ++ ":[REDACTED]".toList
    | none => userinfo) ++ '@' :: host

/-- What is shown of the text after `://`. -/
def shown (rest : List Char) : List Char :=
  match splitOnce '/' rest with
  | none => shownAuthority rest
  | some (authority, tail) => shownAuthority authority ++ '/' :: tail

/-- `m` stands between the first colon and the last at-sign before the first slash. -/
structure Hides (rest s m r : List Char) : Prop where
  eq : rest = s ++ ':' :: (m ++ '@' :: r)
  colon : ':' ∉ s
  slash : '/' ∉ s ∧ '/' ∉ m
  last : '@' ∉ r.takeWhile (· ≠ '/')

theorem redactAuthorityUrl_eq (scheme authority tail : List Char) :
    redactAuthorityUrl scheme authority tail = scheme ++ (schemeEnd ++ (shownAuthority authority ++ tail)) := by
  unfold redactAuthorityUrl shownAuthority
  cases rsplitOnce '@' authority with
  | none => simp
  | some parts =>
    cases hsplit : splitOnce ':' parts.1 with
    | none => simp [hsplit]
    | some userinfo => simp [hsplit]

theorem redactDatabaseUrl_of_scheme {u : String} {scheme rest : List Char}
    (h : splitOnceText schemeEnd u.toList = some (scheme, rest)) :
    redactDatabaseUrl u = String.ofList (scheme ++ (schemeEnd ++ shown rest)) := by
  unfold redactDatabaseUrl shown
  rw [h]
  dsimp only
  cases splitOnce '/' rest with
  | none => simp [redactAuthorityUrl_eq]
  | some parts => simp [redactAuthorityUrl_eq]

theorem redactDatabaseUrl_of_none {u : String} (h : splitOnceText schemeEnd u.toList = none) : redactDatabaseUrl u = u := by
  unfold redactDatabaseUrl
  rw [h]

theorem shownAuthority_hides {s m host : List Char} (hcolon : ':' ∉ s) (hhost : '@' ∉ host) :
    shownAuthority (s ++ ':' :: (m ++ '@' :: host)) = s ++ ':' :: ("[REDACTED]@".toList ++ host) := by
  have hauthority : s ++ ':' :: (m ++ '@' :: host) = (s ++ ':' :: m) ++ '@' :: host := by simp
  unfold shownAuthority
  rw [hauthority, rsplitOnce_append hhost]
  simp only [splitOnce_append hcolon]
  simp

theorem shown_of_hides {t s m r : List Char} (h : Hides t s m r) : shown t = s ++ ':' :: ("[REDACTED]@".toList ++ r) := by
  have heq := h.eq
  have hlast := h.last
  unfold shown
  by_cases hslash : '/' ∈ r
  · obtain ⟨host, tail, rfl, hhost⟩ := List.eq_append_cons_of_mem hslash
    have htake : (host ++ '/' :: tail).takeWhile (· ≠ '/') = host := by
      rw [List.takeWhile_append_of_pos (ne_of_notMem hhost)]
      simp
    rw [htake] at hlast
    have hauthority : t = (s ++ ':' :: (m ++ '@' :: host)) ++ '/' :: tail := by
      rw [heq]
      simp
    have hnot : '/' ∉ s ++ ':' :: (m ++ '@' :: host) := by simp [h.slash.1, h.slash.2, hhost]
    rw [hauthority, splitOnce_append hnot]
    dsimp only
    rw [shownAuthority_hides h.colon hlast]
    simp
  · have htake : r.takeWhile (· ≠ '/') = r := by
      have happend := @List.takeWhile_append_of_pos _ (fun c => decide (c ≠ '/')) r [] (ne_of_notMem hslash)
      simpa using happend
    rw [htake] at hlast
    have hnot : '/' ∉ t := by
      rw [heq]
      simp [h.slash.1, h.slash.2, hslash]
    rw [splitOnce_none hnot, heq]
    exact shownAuthority_hides h.colon hlast

theorem shownAuthority_cases {authority : List Char} (hslash : '/' ∉ authority) (tail : List Char)
    (htail : tail.takeWhile (· ≠ '/') = []) :
    shownAuthority authority = authority ∨ ∃ s m r, Hides (authority ++ tail) s m r := by
  by_cases hat : '@' ∈ authority
  · obtain ⟨userinfo, host, rfl, hhost⟩ := exists_last hat
    by_cases hcolon : ':' ∈ userinfo
    · right
      obtain ⟨s, m, rfl, hs⟩ := List.eq_append_cons_of_mem hcolon
      have hnot : '/' ∉ host := fun hc => hslash (by simp [hc])
      refine ⟨s, m, host ++ tail, by simp, hs, ⟨fun hc => hslash (by simp [hc]), fun hc => hslash (by simp [hc])⟩, ?_⟩
      rw [List.takeWhile_append_of_pos (ne_of_notMem hnot), htail, List.append_nil]
      exact hhost
    · left
      unfold shownAuthority
      rw [rsplitOnce_append hhost]
      simp only [splitOnce_none hcolon]
  · left
    unfold shownAuthority
    rw [rsplitOnce_none hat]

/-- A text is shown as it is, or a part of it is hidden. -/
theorem shown_cases (t : List Char) : shown t = t ∨ ∃ s m r, Hides t s m r := by
  by_cases hslash : '/' ∈ t
  · obtain ⟨authority, tail, rfl, hauthority⟩ := List.eq_append_cons_of_mem hslash
    obtain hshown | hhides := shownAuthority_cases hauthority ('/' :: tail) (by simp)
    · left
      unfold shown
      rw [splitOnce_append hauthority]
      dsimp only
      rw [hshown]
    · exact .inr hhides
  · obtain hshown | hhides := shownAuthority_cases hslash [] rfl
    · left
      unfold shown
      rw [splitOnce_none hslash]
      exact hshown
    · rw [List.append_nil] at hhides
      exact .inr hhides

/-- What `shown` puts for the hidden part is itself hidden. -/
theorem Hides.redacted {t s m r : List Char} (h : Hides t s m r) : Hides (shown t) s "[REDACTED]".toList r := by
  refine ⟨?_, h.colon, ⟨h.slash.1, by decide⟩, h.last⟩
  rw [shown_of_hides h]
  simp

theorem shown_eq_iff (t t' : List Char) :
    shown t = shown t' ↔ t = t' ∨ ∃ s m m' r, Hides t s m r ∧ Hides t' s m' r := by
  constructor
  · intro heq
    obtain hplain | ⟨s, m, r, hhides⟩ := shown_cases t
    · obtain hplain' | ⟨s', m', r', hhides'⟩ := shown_cases t'
      · exact .inl (hplain.symm.trans (heq.trans hplain'))
      · have hredacted := hhides'.redacted
        rw [← heq, hplain] at hredacted
        exact .inr ⟨s', _, m', r', hredacted, hhides'⟩
    · obtain hplain' | ⟨s', m', r', hhides'⟩ := shown_cases t'
      · have hredacted := hhides.redacted
        rw [heq, hplain'] at hredacted
        exact .inr ⟨s, m, _, r, hhides, hredacted⟩
      · rw [shown_of_hides hhides, shown_of_hides hhides'] at heq
        have hsplit := congrArg (splitOnce ':') heq
        rw [splitOnce_append hhides.colon, splitOnce_append hhides'.colon] at hsplit
        obtain ⟨hs, hr⟩ := Prod.mk.inj (Option.some.inj hsplit)
        have hr := List.append_cancel_left hr
        subst hs hr
        exact .inr ⟨s, m, m', r, hhides, hhides'⟩
  · rintro (rfl | ⟨s, m, m', r, hhides, hhides'⟩)
    · rfl
    · rw [shown_of_hides hhides, shown_of_hides hhides']

/-! ## Two URLs -/

/-- Two URLs of one scheme that differ only between the first colon behind `://` and the
last at-sign before the next slash. -/
def DifferInUserinfo (u v : String) : Prop :=
  ∃ scheme rest rest', splitOnceText schemeEnd u.toList = some (scheme, rest) ∧
    splitOnceText schemeEnd v.toList = some (scheme, rest') ∧
    ∃ s m m' r, Hides rest s m r ∧ Hides rest' s m' r

theorem splitOnceText_scheme {u : String} {scheme rest : List Char} (h : splitOnceText schemeEnd u.toList = some (scheme, rest)) :
    splitOnceText schemeEnd (redactDatabaseUrl u).toList = some (scheme, shown rest) := by
  rw [redactDatabaseUrl_of_scheme h, String.toList_ofList]
  exact (splitOnceText_append h _).2

theorem redactDatabaseUrl_eq_iff (u v : String) :
    redactDatabaseUrl u = redactDatabaseUrl v ↔ u = v ∨ DifferInUserinfo u v := by
  constructor
  · intro heq
    cases hu : splitOnceText schemeEnd u.toList with
    | none =>
      cases hv : splitOnceText schemeEnd v.toList with
      | none =>
        rw [redactDatabaseUrl_of_none hu, redactDatabaseUrl_of_none hv] at heq
        exact .inl heq
      | some parts =>
        have hshown := splitOnceText_scheme hv
        rw [← heq, redactDatabaseUrl_of_none hu, hu] at hshown
        cases hshown
    | some parts =>
      obtain ⟨scheme, rest⟩ := parts
      have hshown := splitOnceText_scheme hu
      cases hv : splitOnceText schemeEnd v.toList with
      | none =>
        rw [heq, redactDatabaseUrl_of_none hv, hv] at hshown
        cases hshown
      | some parts' =>
        obtain ⟨scheme', rest'⟩ := parts'
        rw [heq, splitOnceText_scheme hv] at hshown
        obtain ⟨hscheme, hrest⟩ := Prod.mk.inj (Option.some.inj hshown)
        subst hscheme
        obtain hrest | hhides := (shown_eq_iff rest rest').mp hrest.symm
        · left
          rw [← String.toList_inj, (splitOnceText_append hu []).1, (splitOnceText_append hv []).1, hrest]
        · exact .inr ⟨scheme', rest, rest', hu, hv, hhides⟩
  · rintro (rfl | ⟨scheme, rest, rest', hu, hv, hhides⟩)
    · rfl
    · rw [redactDatabaseUrl_of_scheme hu, redactDatabaseUrl_of_scheme hv, (shown_eq_iff rest rest').mpr (.inr hhides)]

/-- Behind the first slash everything is shown, a `password` parameter too. -/
theorem redactDatabaseUrl_tail {u v : String} {scheme authority tail tail' : List Char} (hslash : '/' ∉ authority)
    (hu : splitOnceText schemeEnd u.toList = some (scheme, authority ++ '/' :: tail))
    (hv : splitOnceText schemeEnd v.toList = some (scheme, authority ++ '/' :: tail'))
    (heq : redactDatabaseUrl u = redactDatabaseUrl v) : tail = tail' := by
  have hshown (tail : List Char) : shown (authority ++ '/' :: tail) = shownAuthority authority ++ '/' :: tail := by
    unfold shown
    rw [splitOnce_append hslash]
  rw [redactDatabaseUrl_of_scheme hu, redactDatabaseUrl_of_scheme hv, hshown, hshown, String.ofList_inj] at heq
  have htail := List.append_cancel_left (List.append_cancel_left (List.append_cancel_left heq))
  exact (List.cons.inj htail).2

/-! ## Displayed targets -/

theorem fromConfig_displayTarget {config : StorageConfig} {plan : StorageConnectionPlan} {u : String}
    (hurl : config.databaseUrl = some u) (hplan : StorageConnectionPlan.fromConfig config = .ok plan) :
    plan.displayTarget = redactDatabaseUrl u := by
  unfold StorageConnectionPlan.fromConfig at hplan
  rw [hurl] at hplan
  dsimp only at hplan
  cases hbackend : backendForUrl u with
  | error message =>
    rw [hbackend] at hplan
    cases hplan
  | ok backend =>
    rw [hbackend] at hplan
    cases hplan
    rfl

/-- Two accepted URLs have one displayed target exactly when they are one URL or differ
only in the hidden part. -/
theorem displayTarget_eq_iff {config config' : StorageConfig} {plan plan' : StorageConnectionPlan} {u v : String}
    (hu : config.databaseUrl = some u) (hv : config'.databaseUrl = some v)
    (hplan : StorageConnectionPlan.fromConfig config = .ok plan)
    (hplan' : StorageConnectionPlan.fromConfig config' = .ok plan') :
    plan.displayTarget = plan'.displayTarget ↔ u = v ∨ DifferInUserinfo u v := by
  rw [fromConfig_displayTarget hu hplan, fromConfig_displayTarget hv hplan']
  exact redactDatabaseUrl_eq_iff u v

def storageAt (databaseUrl : String) : StorageConfig := { dbPath := "", databaseUrl := some databaseUrl, backend := none }

theorem displayTarget_userinfo :
    ∃ plan plan', StorageConnectionPlan.fromConfig (storageAt "postgres://llmctl:a@db") = .ok plan ∧
      StorageConnectionPlan.fromConfig (storageAt "postgres://llmctl:b?c@db") = .ok plan' ∧
      plan.displayTarget = plan'.displayTarget := by
  refine ⟨_, _, rfl, rfl, ?_⟩
  have h := @displayTarget_eq_iff (storageAt "postgres://llmctl:a@db") (storageAt "postgres://llmctl:b?c@db") _ _ _ _
    rfl rfl rfl rfl
  refine h.mpr (.inr ?_)
  refine ⟨"postgres".toList, "llmctl:a@db".toList, "llmctl:b?c@db".toList, by decide, by decide, ?_⟩
  refine ⟨"llmctl".toList, "a".toList, "b?c".toList, "db".toList, ?_, ?_⟩
  · exact ⟨by decide, by decide, by decide, by decide⟩
  · exact ⟨by decide, by decide, by decide, by decide⟩

/-- The password parameter is shown, and so is a password with a slash in it. -/
theorem displayTarget_shows :
    (∃ plan plan', StorageConnectionPlan.fromConfig (storageAt "postgres://db/llmctl?user=u&password=a") = .ok plan ∧
      StorageConnectionPlan.fromConfig (storageAt "postgres://db/llmctl?user=u&password=b") = .ok plan' ∧
      plan.displayTarget ≠ plan'.displayTarget) ∧
    ∃ plan plan', StorageConnectionPlan.fromConfig (storageAt "postgres://u:a/@db") = .ok plan ∧
      StorageConnectionPlan.fromConfig (storageAt "postgres://u:b/@db") = .ok plan' ∧
      plan.displayTarget ≠ plan'.displayTarget := by
  refine ⟨⟨_, _, rfl, rfl, by decide⟩, ⟨_, _, rfl, rfl, by decide⟩⟩

end Llmctl
