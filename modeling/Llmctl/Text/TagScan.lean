import Mathlib.Data.List.DropRight
import Llmctl.Text.Separators

/-!
# Sections between tags

A scan from left to right looks for the opening tag outside of a section and for the
closing tag inside of one. A reader that gets the text in pieces and keeps only the last
few characters looks for the same tag at the same places (`infix_tail_iff`), so it is at one
with the scan after a piece that completes one tag or none.
-/

namespace Text

variable {α : Type} [DecidableEq α]

structure Tags (α : Type) [DecidableEq α] where
  opening : List α
  closing : List α
  apart : Separators [opening, closing]
  ne : opening ≠ closing

namespace Tags

variable (T : Tags α)

/-- The tag that ends where the text is now. -/
def tag (inside : Bool) : List α := if inside then T.closing else T.opening

/-- What follows the first occurrence of the tag. -/
def afterTag (tag : List α) : List α → Option (List α)
  | [] => none
  | c :: s => if tag <+: c :: s then some ((c :: s).drop tag.length) else afterTag tag s

/-- How many tags the scan found, whether it ended inside a section, and what follows the last tag. -/
structure Scanned (α : Type) where
  completed : Nat
  inside : Bool
  rest : List α

def scanWithin : Nat → Bool → List α → Scanned α
  | 0, inside, s => ⟨0, inside, s⟩
  | fuel + 1, inside, s =>
    match afterTag (T.tag inside) s with
    | none => ⟨0, inside, s⟩
    | some rest =>
      let scanned := scanWithin fuel (!inside) rest
      { scanned with completed := scanned.completed + 1 }

def scan (inside : Bool) (s : List α) : Scanned α := T.scanWithin s.length inside s

/-! ## The first tag -/

variable {T} {s r d : List α} {inside : Bool}

theorem mem_tags (inside : Bool) : T.tag inside ∈ [T.opening, T.closing] := by
  cases inside <;> simp [tag]

theorem tag_ne_nil (inside : Bool) : T.tag inside ≠ [] := (T.apart _ (mem_tags inside)).1

theorem tag_ne (inside : Bool) : T.tag inside ≠ T.tag (!inside) := by
  cases inside
  · exact T.ne
  · exact T.ne.symm

omit [DecidableEq α] in
theorem prefix_append_of_length {t s d : List α} (h : t <+: s ++ d) (hlen : t.length ≤ s.length) : t <+: s :=
  List.prefix_of_prefix_length_le h (List.prefix_append s d) hlen

theorem afterTag_eq {t : List α} (h : afterTag t s = some r) : ∃ x, s = x ++ (t ++ r) := by
  induction s with
  | nil => cases h
  | cons c s ih =>
    rw [afterTag] at h
    split at h
    · rename_i hprefix
      cases h
      refine ⟨[], ?_⟩
      rw [List.nil_append]
      exact (List.prefix_iff_eq_append.mp hprefix).symm
    · obtain ⟨x, hx⟩ := ih h
      exact ⟨c :: x, by rw [hx, List.cons_append]⟩

theorem afterTag_none_iff {t : List α} (ht : t ≠ []) : afterTag t s = none ↔ ¬ t <:+: s := by
  induction s with
  | nil =>
    refine ⟨fun _ h => ht (List.infix_nil.mp h), fun _ => rfl⟩
  | cons c s ih =>
    rw [afterTag, List.infix_cons_iff]
    split
    · rename_i hprefix
      exact ⟨nofun, fun h => absurd (.inl hprefix) h⟩
    · rename_i hprefix
      rw [ih]
      exact ⟨fun h hor => hor.elim hprefix h, fun h hinfix => h (.inr hinfix)⟩

/-- More text does not change where the first tag is. -/
theorem afterTag_append {t : List α} (h : afterTag t s = some r) (d : List α) : afterTag t (s ++ d) = some (r ++ d) := by
  induction s with
  | nil => cases h
  | cons c s ih =>
    rw [afterTag] at h
    rw [List.cons_append, afterTag]
    by_cases hprefix : t <+: c :: s
    · rw [if_pos hprefix] at h
      cases h
      have hlonger : t <+: c :: (s ++ d) := hprefix.trans (List.prefix_append (c :: s) d)
      have hlen := hprefix.length_le
      rw [if_pos hlonger, ← List.cons_append, List.drop_append_of_le_length hlen]
    · rw [if_neg hprefix] at h
      have hlen : t.length ≤ (c :: s).length := by
        obtain ⟨x, hx⟩ := afterTag_eq h
        rw [hx]
        simp only [List.length_cons, List.length_append]
        omega
      have hnot : ¬ t <+: c :: (s ++ d) := fun hlonger => hprefix (prefix_append_of_length hlonger hlen)
      rw [if_neg hnot, ih h]

/-! ## The scan -/

theorem afterTag_length (h : afterTag (T.tag inside) s = some r) : r.length < s.length := by
  have hpos := List.length_pos_iff.mpr (T.tag_ne_nil inside)
  obtain ⟨x, hx⟩ := afterTag_eq h
  rw [hx]
  simp only [List.length_append]
  omega

theorem scanWithin_eq {fuel : Nat} (h : s.length ≤ fuel) : T.scanWithin fuel inside s = T.scan inside s := by
  induction fuel using Nat.strongRecOn generalizing inside s with
  | ind fuel ih =>
    have hsame : ∀ {fuel' : Nat}, s.length ≤ fuel' → fuel' ≤ fuel → ∀ {fuel''}, s.length ≤ fuel'' → fuel'' ≤ fuel →
        T.scanWithin fuel' inside s = T.scanWithin fuel'' inside s := by
      intro fuel' h' hle' fuel'' h'' hle''
      cases hafter : afterTag (T.tag inside) s with
      | none => cases fuel' <;> cases fuel'' <;> simp [scanWithin, hafter]
      | some rest =>
        have hlen := afterTag_length hafter
        obtain ⟨m, rfl⟩ : ∃ m, fuel' = m + 1 := ⟨fuel' - 1, by omega⟩
        obtain ⟨n, rfl⟩ : ∃ n, fuel'' = n + 1 := ⟨fuel'' - 1, by omega⟩
        simp only [scanWithin, hafter]
        rw [ih m (by omega) (by omega), ih n (by omega) (by omega)]
    exact hsame h (Nat.le_refl _) (Nat.le_refl _) h

theorem scan_none (h : afterTag (T.tag inside) s = none) : T.scan inside s = ⟨0, inside, s⟩ := by
  unfold scan
  cases s.length <;> simp [scanWithin, h]

theorem scan_some (h : afterTag (T.tag inside) s = some r) :
    T.scan inside s = { T.scan (!inside) r with completed := (T.scan (!inside) r).completed + 1 } := by
  have hlen := afterTag_length h
  obtain ⟨n, hn⟩ : ∃ n, s.length = n + 1 := ⟨s.length - 1, by omega⟩
  rw [scan, hn]
  simp only [scanWithin, h]
  rw [scanWithin_eq (by omega)]

theorem scan_append (inside : Bool) (s d : List α) :
    T.scan inside (s ++ d) =
      { T.scan (T.scan inside s).inside ((T.scan inside s).rest ++ d) with
        completed := (T.scan inside s).completed + (T.scan (T.scan inside s).inside ((T.scan inside s).rest ++ d)).completed } := by
  induction hn : s.length using Nat.strongRecOn generalizing inside s with
  | ind n ih =>
    cases h : afterTag (T.tag inside) s with
    | none => simp [scan_none h]
    | some r =>
      have hr := ih r.length (hn ▸ afterTag_length h) (!inside) r rfl
      rw [scan_some h, scan_some (afterTag_append h d), hr]
      simp only [Nat.add_right_comm]

theorem scan_completed_eq_zero_iff : (T.scan inside s).completed = 0 ↔ ¬ T.tag inside <:+: s := by
  rw [← afterTag_none_iff (T.tag_ne_nil inside)]
  cases h : afterTag (T.tag inside) s with
  | none => simp [scan_none h]
  | some r => simp [scan_some h]

/-- The scan ends where it began after an even number of tags. -/
theorem scan_inside (inside : Bool) (s : List α) :
    (T.scan inside s).inside = (inside ^^ decide ((T.scan inside s).completed % 2 = 1)) := by
  induction hn : s.length using Nat.strongRecOn generalizing inside s with
  | ind n ih =>
    cases h : afterTag (T.tag inside) s with
    | none => simp [scan_none h]
    | some r =>
      have hr := ih r.length (hn ▸ afterTag_length h) (!inside) r rfl
      rw [scan_some h]
      simp only [hr]
      rcases Nat.mod_two_eq_zero_or_one (T.scan (!inside) r).completed with heven | hodd
      · have : ((T.scan (!inside) r).completed + 1) % 2 = 1 := by omega
        simp [heven, this]
      · have : ((T.scan (!inside) r).completed + 1) % 2 = 0 := by omega
        simp [hodd, this]

theorem scan_rest (inside : Bool) (s : List α) : ¬ T.tag (T.scan inside s).inside <:+: (T.scan inside s).rest := by
  induction hn : s.length using Nat.strongRecOn generalizing inside s with
  | ind n ih =>
    cases h : afterTag (T.tag inside) s with
    | none =>
      rw [scan_none h]
      exact (afterTag_none_iff (T.tag_ne_nil inside)).mp h
    | some r =>
      rw [scan_some h]
      exact ih r.length (hn ▸ afterTag_length h) (!inside) r rfl

/-- What the rest follows: nothing, or the tag that was found last. -/
theorem scan_eq (inside : Bool) (s : List α) :
    ((T.scan inside s).completed = 0 ∧ (T.scan inside s).rest = s) ∨
      ∃ x, s = x ++ (T.tag (!(T.scan inside s).inside) ++ (T.scan inside s).rest) := by
  induction hn : s.length using Nat.strongRecOn generalizing inside s with
  | ind n ih =>
    cases h : afterTag (T.tag inside) s with
    | none => exact .inl (by rw [scan_none h]; exact ⟨rfl, rfl⟩)
    | some r =>
      obtain ⟨x, hx⟩ := afterTag_eq h
      refine .inr ?_
      rw [scan_some h]
      rcases ih r.length (hn ▸ afterTag_length h) (!inside) r rfl with ⟨hzero, hrest⟩ | ⟨y, hy⟩
      · have hinside : (T.scan (!inside) r).inside = !inside := by simp [scan_inside, hzero]
        refine ⟨x, ?_⟩
        simp only [hrest, hinside, Bool.not_not]
        exact hx
      · refine ⟨x ++ (T.tag inside ++ y), ?_⟩
        rw [hx]
        conv_lhs => rw [hy]
        simp only [List.append_assoc]

/-! ## The last characters -/

/-- No end of one tag begins the other. -/
theorem end_not_prefix {w : List α} (hw : w ≠ []) (hsuffix : w <:+ T.tag (!inside)) : ¬ w <+: T.tag inside := by
  intro hprefix
  obtain ⟨y, hy⟩ := hsuffix
  have hdrop : (T.tag (!inside)).drop y.length = w := by rw [← hy, List.drop_left]
  have hk : y.length < (T.tag (!inside)).length := by
    have := List.length_pos_iff.mpr hw
    rw [← hy, List.length_append]
    omega
  have hsame := ((T.apart _ (mem_tags (!inside))).2 _ (mem_tags inside) y.length hk (.inl (hdrop ▸ hprefix))).2
  exact T.tag_ne inside hsame.symm

/-- Neither tag is within the other. -/
theorem tag_not_infix (inside : Bool) : ¬ T.tag (!inside) <:+: T.tag inside := by
  rintro ⟨y, z, hyz⟩
  rw [List.append_assoc] at hyz
  have hdrop : (T.tag inside).drop y.length = T.tag (!inside) ++ z := by rw [← hyz, List.drop_left]
  have hk : y.length < (T.tag inside).length := by
    have := List.length_pos_iff.mpr (T.tag_ne_nil (!inside))
    rw [← hyz, List.length_append, List.length_append]
    omega
  have hprefix : T.tag (!inside) <+: (T.tag inside).drop y.length := hdrop ▸ List.prefix_append ..
  have hsame := ((T.apart _ (mem_tags inside)).2 _ (mem_tags (!inside)) y.length hk (.inr hprefix)).2
  exact T.tag_ne inside hsame

/-- A text that ends with one tag has no end that begins the other. -/
theorem suffix_not_prefix {x w : List α} (hw : w ≠ []) (hsuffix : w <:+ x ++ T.tag (!inside)) : ¬ w <+: T.tag inside := by
  have htag : T.tag (!inside) <:+ x ++ T.tag (!inside) := List.suffix_append ..
  rcases List.suffix_or_suffix_of_suffix hsuffix htag with hshort | hlong
  · exact end_not_prefix hw hshort
  · exact fun hprefix => tag_not_infix inside (hlong.isInfix.trans hprefix.isInfix)

/-- Every tag fits in the last `n` characters, and one fills them. -/
structure Fits (T : Tags α) (n : Nat) : Prop where
  le (inside : Bool) : (T.tag inside).length ≤ n
  eq : ∃ inside, (T.tag inside).length = n

omit [DecidableEq α] in
theorem suffix_before {x w rest s : List α} (hs : s = x ++ rest) (h : w ++ rest <:+ s) : w <:+ x := by
  obtain ⟨y, hy⟩ := h
  rw [hs, ← List.append_assoc] at hy
  exact ⟨y, List.append_cancel_right hy⟩

omit [DecidableEq α] in
theorem rtake_suffix (n : Nat) (s : List α) : s.rtake n <:+ s := List.drop_suffix ..

omit [DecidableEq α] in
theorem length_rtake (n : Nat) (s : List α) : (s.rtake n).length = min n s.length := by
  rw [List.rtake, List.length_drop]
  omega

/-- An end of the text is within the rest of the scan, or reaches back over it by more than a
beginning of the tag that ends where the text is. -/
theorem suffix_rest (inside : Bool) {e : List α} (h : e <:+ s) :
    e <:+ (T.scan inside s).rest ∨ ∃ w x, w ≠ [] ∧ e = w ++ (T.scan inside s).rest ∧
      w <:+ x ++ T.tag (!(T.scan inside s).inside) ∧ ¬ w <+: T.tag (T.scan inside s).inside := by
  rcases scan_eq (T := T) inside s with ⟨-, hrest⟩ | ⟨x, hx⟩
  · exact .inl (by rw [hrest]; exact h)
  · rw [← List.append_assoc] at hx
    have hrest : (T.scan inside s).rest <:+ s := ⟨_, hx.symm⟩
    rcases List.suffix_or_suffix_of_suffix h hrest with hshort | ⟨w, hw⟩
    · exact .inl hshort
    · by_cases hnil : w = []
      · rw [hnil, List.nil_append] at hw
        exact .inl (hw ▸ List.suffix_refl _)
      · have hbefore : w <:+ x ++ T.tag (!(T.scan inside s).inside) := suffix_before hx (hw ▸ h)
        exact .inr ⟨w, x, hnil, hw.symm, hbefore, suffix_not_prefix hnil hbefore⟩

/-- The last characters of a text hold no tag that the scan would find in it. -/
theorem not_infix_tail {n : Nat} (hfits : T.Fits n) : ¬ T.tag (T.scan inside s).inside <:+: s.rtake n := by
  rintro ⟨y, z, hyz⟩
  have hend : T.tag (T.scan inside s).inside ++ z <:+ s.rtake n := ⟨y, by rw [← hyz, List.append_assoc]⟩
  have hlen := hend.length_le
  rw [length_rtake] at hlen
  rcases suffix_rest (T := T) inside (hend.trans (rtake_suffix n s)) with hrest | ⟨w, x, hne, heq, hsuffix, hnot⟩
  · exact scan_rest inside s ((List.prefix_append _ z).isInfix.trans hrest.isInfix)
  · have hw : w <+: T.tag (T.scan inside s).inside ++ z := heq ▸ List.prefix_append ..
    rcases List.prefix_or_prefix_of_prefix hw (List.prefix_append _ z) with hshort | hlong
    · exact hnot hshort
    · have hwlen := hw.length_le
      obtain ⟨full, hfull⟩ := hfits.eq
      by_cases hsame : full = (T.scan inside s).inside
      · -- the tag itself fills the last characters
        rw [hsame] at hfull
        exact hnot (hlong.eq_of_length_le (by omega) ▸ List.prefix_refl _)
      · have hother : full = !(T.scan inside s).inside := Bool.eq_not.mpr hsame
        rw [hother] at hfull
        have hwtag : w <:+ T.tag (!(T.scan inside s).inside) :=
          List.suffix_of_suffix_length_le hsuffix (List.suffix_append x _) (by omega)
        refine tag_not_infix (T := T) (!(T.scan inside s).inside) ?_
        rw [Bool.not_not]
        exact hlong.isInfix.trans hwtag.isInfix

/-- With the last characters of a text and a new piece, a tag is found where the scan finds one. -/
theorem infix_tail_iff {n : Nat} (hfits : T.Fits n) : T.tag (T.scan inside s).inside <:+: s.rtake n ++ d ↔
    T.tag (T.scan inside s).inside <:+: (T.scan inside s).rest ++ d := by
  rw [List.infix_append_iff, List.infix_append_iff]
  constructor
  · rintro (htail | hd | ⟨l, r, ht, hl, hr⟩)
    · exact absurd htail (not_infix_tail hfits)
    · exact .inr (.inl hd)
    · rcases suffix_rest (T := T) inside (hl.trans (rtake_suffix n s)) with hrest | ⟨w, x, hne, heq, -, hnot⟩
      · exact .inr (.inr ⟨l, r, ht, hrest, hr⟩)
      · refine absurd ?_ hnot
        rw [ht, heq, List.append_assoc]
        exact List.prefix_append ..
  · rintro (hrest | hd | ⟨l, r, ht, hl, hr⟩)
    · exact absurd hrest (scan_rest inside s)
    · exact .inr (.inl hd)
    · have hsuffix : (T.scan inside s).rest <:+ s := by
        rcases scan_eq (T := T) inside s with ⟨-, hrest⟩ | ⟨x, hx⟩
        · rw [hrest]
        · exact ⟨_, ((List.append_assoc ..).trans hx.symm)⟩
      have hllen : l.length ≤ n := by
        have := hfits.le (T.scan inside s).inside
        rw [ht, List.length_append] at this
        omega
      have hlen := (hl.trans hsuffix).length_le
      refine .inr (.inr ⟨l, r, ht, ?_, hr⟩)
      refine List.suffix_of_suffix_length_le (hl.trans hsuffix) (rtake_suffix n s) ?_
      rw [length_rtake]
      omega

/-! ## Reading in pieces -/

/-- Whether the reader is inside a section, and the last characters it keeps. -/
def read (T : Tags α) (n : Nat) (st : Bool × List α) (d : List α) : Bool × List α :=
  (if T.tag st.1 <:+: st.2 ++ d then !st.1 else st.1, (st.2 ++ d).rtake n)

omit [DecidableEq α] in
theorem rtake_rtake_append (n : Nat) (s d : List α) : (s.rtake n ++ d).rtake n = (s ++ d).rtake n := by
  have hsuffix : (s.rtake n ++ d).rtake n <:+ s ++ d := by
    obtain ⟨x, hx⟩ := rtake_suffix n s
    refine (rtake_suffix n _).trans ⟨x, ?_⟩
    rw [← List.append_assoc, hx]
  refine (List.suffix_of_suffix_length_le hsuffix (rtake_suffix n (s ++ d)) ?_).eq_of_length ?_ <;>
  · simp only [length_rtake, List.length_append]
    omega

/-- How many tags the scan finds with the next piece. -/
def completedBy (T : Tags α) (s d : List α) : Nat := (T.scan false (s ++ d)).completed - (T.scan false s).completed

theorem completedBy_eq (s d : List α) :
    T.completedBy s d = (T.scan (T.scan false s).inside ((T.scan false s).rest ++ d)).completed := by
  rw [completedBy, scan_append]
  exact Nat.add_sub_cancel_left ..

theorem scan_inside_append (s d : List α) :
    (T.scan false (s ++ d)).inside = ((T.scan false s).inside ^^ decide (T.completedBy s d % 2 = 1)) := by
  rw [scan_append, scan_inside, completedBy_eq]

/-- A reader that is where the scan is turns around with a piece that completes a tag. -/
theorem read_eq {n : Nat} (hfits : T.Fits n) (s d : List α) :
    T.read n ((T.scan false s).inside, s.rtake n) d =
      ((T.scan false s).inside ^^ decide (0 < T.completedBy s d), (s ++ d).rtake n) := by
  have hpos : 0 < T.completedBy s d ↔ T.tag (T.scan false s).inside <:+: s.rtake n ++ d := by
    rw [infix_tail_iff hfits, completedBy_eq, Nat.pos_iff_ne_zero, ne_eq, scan_completed_eq_zero_iff, not_not]
  rw [read, rtake_rtake_append]
  by_cases h : 0 < T.completedBy s d
  · simp [h, hpos.mp h]
  · simp [h, mt hpos.mpr h]

end Tags

end Text
