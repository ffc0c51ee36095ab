import Mathlib.Data.List.Basic
import Mathlib.Data.List.TakeDrop

/-!
# Regular expressions

Expressions of classes, boundaries, sequences, alternatives and greedy repetitions, and the
search for their leftmost matches, each the one that a backtracking matcher prefers. When
every match of one expression is replaced by a text in brackets, which no match reaches
across, the new text holds no match of it, and none of another that the old text did not
hold.
-/

namespace Llmctl

/-- A place in a text: the character before it, and the text after it. -/
@[ext] structure Place where
  before : Option Char
  after : List Char

/-- A word begins or ends here. -/
def Place.isBoundary (word : Char → Bool) (x : Place) : Bool := x.before.any word != x.after.head?.any word

/-- From `x` over `w` to `y`. -/
def Place.Over (x : Place) (w : List Char) (y : Place) : Prop :=
  x.after = w ++ y.after ∧ y.before = w.getLast?.or x.before

inductive Regex where
  | cls (p : Char → Bool)
  | boundary (word : Char → Bool)
  | seq (r s : Regex)
  | alt (r s : Regex)
  /-- At least `min` times and at most `max`, as often as it can. -/
  | rep (r : Regex) (min : Nat) (max : Option Nat)

namespace Regex

/-- The characters `c :: s`, one after the other. -/
def lit (c : Char) : List Char → Regex
  | [] => cls (· == c)
  | d :: s => seq (cls (· == c)) (lit d s)

def alts (r : Regex) : List Regex → Regex
  | [] => r
  | s :: rs => alt r (alts s rs)

/-! ## Matching -/

def exactly (f : Place → List Place) : Nat → Place → List Place
  | 0, x => [x]
  | n + 1, x => (f x).flatMap (exactly f n)

def upTo (f : Place → List Place) : Nat → Place → List Place
  | 0, x => [x]
  | n + 1, x => (f x).flatMap (upTo f n) ++ [x]

/-- The places where a match that starts here ends, the preferred ones first. -/
def ends : Regex → Place → List Place
  | cls p, x =>
    match x.after with
    | c :: s => if p c then [⟨some c, s⟩] else []
    | [] => []
  | boundary word, x => if x.isBoundary word then [x] else []
  | seq r s, x => (ends r x).flatMap (ends s)
  | alt r s, x => ends r x ++ ends s x
  | rep r min max, x =>
    (exactly (ends r) min x).flatMap fun y =>
      upTo (ends r) (match max with
        | some max => max - min
        | none => y.after.length) y

/-- `Regex::is_match`, from a place on -/
def isMatchAt (r : Regex) : Option Char → List Char → Bool
  | b, [] => !(ends r ⟨b, []⟩).isEmpty
  | b, c :: s => !(ends r ⟨b, c :: s⟩).isEmpty || isMatchAt r (some c) s

def isMatch (r : Regex) (text : List Char) : Bool := isMatchAt r none text

inductive Piece where
  | kept (c : Char)
  | hit (m : List Char)

/-- The text after a place, split at its leftmost matches. A match of no text counts for
nothing. -/
def pieces (r : Regex) : Nat → Place → List Piece
  | 0, _ => []
  | fuel + 1, x =>
    match x.after with
    | [] => []
    | c :: s =>
      match ends r x with
      | y :: _ =>
        if y.after.length < x.after.length then
          .hit (x.after.take (x.after.length - y.after.length)) :: pieces r fuel y
        else .kept c :: pieces r fuel ⟨some c, s⟩
      | [] => .kept c :: pieces r fuel ⟨some c, s⟩

def split (r : Regex) (text : List Char) : List Piece := pieces r (text.length + 1) ⟨none, text⟩

def Piece.isHit : Piece → Bool
  | .kept _ => false
  | .hit _ => true

/-- The number of matches of `Regex::find_iter` -/
def countMatches (r : Regex) (text : List Char) : Nat := ((split r text).filter Piece.isHit).length

def Piece.original : Piece → List Char
  | .kept c => [c]
  | .hit m => m

def Piece.replaced (marker : List Char) : Piece → List Char
  | .kept c => [c]
  | .hit _ => marker

/-- `Regex::replace_all` with a replacement that stands for itself -/
def replaceAll (r : Regex) (marker text : List Char) : List Char := (split r text).flatMap (Piece.replaced marker)

/-! ## What can be read off an expression -/

/-- Every match takes a character. -/
def consumes : Regex → Bool
  | cls _ => true
  | boundary _ => false
  | seq r s => consumes r || consumes s
  | alt r s => consumes r && consumes s
  | rep r min _ => decide (0 < min) && consumes r

/-- What is repeated without an end takes a character each time. -/
def wellFormed : Regex → Bool
  | cls _ | boundary _ => true
  | seq r s | alt r s => wellFormed r && wellFormed s
  | rep r _ max => wellFormed r && (max.isSome || consumes r)

/-- `P` of every class and `B` of every boundary. -/
def Forall (P B : (Char → Bool) → Prop) : Regex → Prop
  | cls p => P p
  | boundary word => B word
  | seq r s | alt r s => Forall P B r ∧ Forall P B s
  | rep r _ _ => Forall P B r

/-- Every match takes a character of `P`. -/
def Needs (P : Char → Prop) : Regex → Prop
  | cls p => ∀ c, p c = true → P c
  | boundary _ => False
  | seq r s => Needs P r ∨ Needs P s
  | alt r s => Needs P r ∧ Needs P s
  | rep r min _ => 0 < min ∧ Needs P r

theorem Forall.imp {P P' B B' : (Char → Bool) → Prop} {r : Regex} (h : r.Forall P B) (hP : ∀ p, P p → P' p)
    (hB : ∀ word, B word → B' word) : r.Forall P' B' := by
  induction r with
  | cls p => exact hP p h
  | boundary word => exact hB word h
  | seq r s ihr ihs => exact ⟨ihr h.1, ihs h.2⟩
  | alt r s ihr ihs => exact ⟨ihr h.1, ihs h.2⟩
  | rep r min max ihr => exact ihr h

theorem Forall.and {P P' B B' : (Char → Bool) → Prop} {r : Regex} (h : r.Forall P B) (h' : r.Forall P' B') :
    r.Forall (fun p => P p ∧ P' p) fun word => B word ∧ B' word := by
  induction r with
  | cls p => exact ⟨h, h'⟩
  | boundary word => exact ⟨h, h'⟩
  | seq r s ihr ihs => exact ⟨ihr h.1 h'.1, ihs h.2 h'.2⟩
  | alt r s ihr ihs => exact ⟨ihr h.1 h'.1, ihs h.2 h'.2⟩
  | rep r min max ihr => exact ihr h h'

theorem forall_lit {P B : (Char → Bool) → Prop} {c : Char} {s : List Char} (h : ∀ d ∈ c :: s, P (· == d)) :
    (lit c s).Forall P B := by
  induction s generalizing c with
  | nil => exact h c List.mem_cons_self
  | cons d s ih => exact ⟨h c List.mem_cons_self, ih fun e he => h e (List.mem_cons_of_mem _ he)⟩

theorem needs_lit {P : Char → Prop} {c : Char} (h : P c) (s : List Char) : (lit c s).Needs P := by
  have hcls : (cls (· == c)).Needs P := fun d hd => by
    obtain rfl := eq_of_beq hd
    exact h
  cases s with
  | nil => exact hcls
  | cons d s => exact .inl hcls

/-! ## Rules for matches -/

theorem mem_exactly_succ {f : Place → List Place} {n : Nat} {x y : Place} :
    y ∈ exactly f (n + 1) x ↔ ∃ z ∈ f x, y ∈ exactly f n z := List.mem_flatMap

theorem mem_upTo_succ {f : Place → List Place} {n : Nat} {x y : Place} :
    y ∈ upTo f (n + 1) x ↔ (∃ z ∈ f x, y ∈ upTo f n z) ∨ y = x := by
  simp [upTo]

theorem mem_upTo_iff {f : Place → List Place} {n : Nat} {x y : Place} :
    y ∈ upTo f n x ↔ ∃ k ≤ n, y ∈ exactly f k x := by
  induction n generalizing x with
  | zero => simp [upTo, exactly]
  | succ n ih =>
    rw [mem_upTo_succ]
    constructor
    · rintro (⟨z, hz, hy⟩ | rfl)
      · obtain ⟨k, hk, hy⟩ := ih.mp hy
        exact ⟨k + 1, by omega, mem_exactly_succ.mpr ⟨z, hz, hy⟩⟩
      · exact ⟨0, by omega, List.mem_singleton.mpr rfl⟩
    · rintro ⟨k, hk, hy⟩
      cases k with
      | zero => exact .inr (List.mem_singleton.mp hy)
      | succ k =>
        obtain ⟨z, hz, hy⟩ := mem_exactly_succ.mp hy
        exact .inl ⟨z, hz, ih.mpr ⟨k, by omega, hy⟩⟩

theorem mem_ends_seq {r s : Regex} {x y : Place} : y ∈ ends (seq r s) x ↔ ∃ z ∈ ends r x, y ∈ ends s z := List.mem_flatMap

theorem mem_ends_alt {r s : Regex} {x y : Place} : y ∈ ends (alt r s) x ↔ y ∈ ends r x ∨ y ∈ ends s x := List.mem_append

theorem mem_ends_cls {p : Char → Bool} {x y : Place} :
    y ∈ ends (cls p) x ↔ ∃ c, x.after = c :: y.after ∧ y.before = some c ∧ p c = true := by
  unfold ends
  split
  · rename_i c s hx
    by_cases hc : p c = true
    · rw [if_pos hc, hx, List.mem_singleton]
      constructor
      · rintro rfl
        exact ⟨c, rfl, rfl, hc⟩
      · rintro ⟨d, hd, hb, -⟩
        obtain ⟨rfl, rfl⟩ := List.cons.inj hd
        exact Place.ext hb rfl
    · rw [if_neg hc, hx]
      constructor
      · nofun
      · rintro ⟨d, hd, -, hp⟩
        obtain ⟨rfl, -⟩ := List.cons.inj hd
        exact absurd hp hc
  · rename_i hx
    simp [hx]

theorem mem_ends_boundary {word : Char → Bool} {x y : Place} :
    y ∈ ends (boundary word) x ↔ x.isBoundary word = true ∧ y = x := by
  unfold ends
  by_cases h : x.isBoundary word = true <;> simp [h]

end Regex

namespace Place.Over

variable {x y z : Place} {v w : List Char}

theorem refl (x : Place) : x.Over [] x := ⟨rfl, rfl⟩

theorem trans (h : x.Over v y) (h' : y.Over w z) : x.Over (v ++ w) z := by
  refine ⟨by rw [h.1, h'.1, List.append_assoc], ?_⟩
  rw [h'.2, h.2, List.getLast?_append, Option.or_assoc]

theorem before_cons {b : Option Char} {c : Char} {w : List Char} : (c :: w).getLast?.or b = w.getLast?.or (some c) := by
  rw [List.getLast?_cons]
  cases w.getLast? <;> rfl

theorem length (h : x.Over w y) : x.after.length = w.length + y.after.length := by rw [h.1, List.length_append]

end Place.Over

namespace Regex

section
variable {f : Place → List Place} {x y : Place}

theorem over_of_mem_exactly (hf : ∀ x, ∀ y ∈ f x, ∃ w, x.Over w y) {n : Nat} (h : y ∈ exactly f n x) :
    ∃ w, x.Over w y := by
  induction n generalizing x with
  | zero =>
    obtain rfl := List.mem_singleton.mp h
    exact ⟨[], .refl y⟩
  | succ n ih =>
    obtain ⟨z, hz, hy⟩ := mem_exactly_succ.mp h
    obtain ⟨v, hv⟩ := hf x z hz
    obtain ⟨w, hw⟩ := ih hy
    exact ⟨v ++ w, hv.trans hw⟩

end

/-- A match is of some text. -/
theorem over_of_mem_ends (r : Regex) {x y : Place} (h : y ∈ ends r x) : ∃ w, x.Over w y := by
  induction r generalizing x y with
  | cls p =>
    obtain ⟨c, hx, hb, -⟩ := mem_ends_cls.mp h
    exact ⟨[c], hx, hb⟩
  | boundary word =>
    obtain ⟨-, rfl⟩ := mem_ends_boundary.mp h
    exact ⟨[], .refl y⟩
  | seq r s hr hs =>
    obtain ⟨z, hz, hy⟩ := mem_ends_seq.mp h
    obtain ⟨v, hv⟩ := hr hz
    obtain ⟨w, hw⟩ := hs hy
    exact ⟨v ++ w, hv.trans hw⟩
  | alt r s hr hs =>
    rcases mem_ends_alt.mp h with h | h
    · exact hr h
    · exact hs h
  | rep r min max hr =>
    obtain ⟨z, hz, hy⟩ := List.mem_flatMap.mp h
    obtain ⟨k, -, hy⟩ := mem_upTo_iff.mp hy
    obtain ⟨v, hv⟩ := over_of_mem_exactly (fun _ _ => hr) hz
    obtain ⟨w, hw⟩ := over_of_mem_exactly (fun _ _ => hr) hy
    exact ⟨v ++ w, hv.trans hw⟩

theorem length_of_mem_exactly {f : Place → List Place} (hf : ∀ x, ∀ y ∈ f x, y.after.length < x.after.length)
    {n : Nat} {x y : Place} (h : y ∈ exactly f n x) : y.after.length + n ≤ x.after.length := by
  induction n generalizing x with
  | zero =>
    obtain rfl := List.mem_singleton.mp h
    omega
  | succ n ih =>
    obtain ⟨z, hz, hy⟩ := mem_exactly_succ.mp h
    have hz := hf x z hz
    have hy := ih hy
    omega

theorem length_le_of_mem_ends (r : Regex) {x y : Place} (h : y ∈ ends r x) : y.after.length ≤ x.after.length := by
  obtain ⟨w, hw⟩ := over_of_mem_ends r h
  have := hw.length
  omega

theorem length_of_mem_ends {r : Regex} (hr : r.consumes = true) {x y : Place} (h : y ∈ ends r x) :
    y.after.length < x.after.length := by
  induction r generalizing x y with
  | cls p =>
    obtain ⟨c, hx, -, -⟩ := mem_ends_cls.mp h
    rw [hx]
    exact Nat.lt_succ_self _
  | boundary word => cases hr
  | seq r s ihr ihs =>
    obtain ⟨z, hz, hy⟩ := mem_ends_seq.mp h
    have hzx := length_le_of_mem_ends r hz
    have hyz := length_le_of_mem_ends s hy
    rcases Bool.or_eq_true_iff.mp hr with hr | hs
    · exact Nat.lt_of_le_of_lt hyz (ihr hr hz)
    · exact Nat.lt_of_lt_of_le (ihs hs hy) hzx
  | alt r s ihr ihs =>
    obtain ⟨hr, hs⟩ := Bool.and_eq_true_iff.mp hr
    rcases mem_ends_alt.mp h with h | h
    · exact ihr hr h
    · exact ihs hs h
  | rep r min max ihr =>
    obtain ⟨hmin, hr⟩ := Bool.and_eq_true_iff.mp hr
    obtain ⟨z, hz, hy⟩ := List.mem_flatMap.mp h
    obtain ⟨k, -, hy⟩ := mem_upTo_iff.mp hy
    have hz := length_of_mem_exactly (fun _ _ => ihr hr) hz
    have hy := length_of_mem_exactly (fun _ _ => ihr hr) hy
    have hmin := of_decide_eq_true hmin
    omega

/-- Matches of a repetition, as often as there is text. -/
theorem mem_ends_rep {r : Regex} {min : Nat} {max : Option Nat} (hr : max.isSome = true ∨ r.consumes = true)
    {x y : Place} : y ∈ ends (rep r min max) x ↔
      ∃ z ∈ exactly (ends r) min x, ∃ k, (∀ m, max = some m → k ≤ m - min) ∧ y ∈ exactly (ends r) k z := by
  unfold ends
  rw [List.mem_flatMap]
  refine exists_congr fun z => and_congr_right fun _ => ?_
  rw [mem_upTo_iff]
  cases max with
  | some m => simp
  | none =>
    constructor
    · rintro ⟨k, -, hy⟩
      exact ⟨k, nofun, hy⟩
    · rintro ⟨k, -, hy⟩
      have hlen := length_of_mem_exactly (fun _ _ => length_of_mem_ends (hr.resolve_left nofun)) hy
      exact ⟨k, by dsimp only; omega, hy⟩

/-! ## Simulation -/

section
variable {S : Place → Place → Prop}

theorem exactly_sim {f g : Place → List Place} (hf : ∀ {x x'}, S x x' → ∀ y ∈ f x, ∃ y' ∈ g x', S y y') {n : Nat}
    {x x' y : Place} (hS : S x x') (h : y ∈ exactly f n x) : ∃ y' ∈ exactly g n x', S y y' := by
  induction n generalizing x x' with
  | zero =>
    obtain rfl := List.mem_singleton.mp h
    exact ⟨x', List.mem_singleton.mpr rfl, hS⟩
  | succ n ih =>
    obtain ⟨z, hz, hy⟩ := mem_exactly_succ.mp h
    obtain ⟨z', hz', hS⟩ := hf hS z hz
    obtain ⟨y', hy', hS⟩ := ih hS hy
    exact ⟨y', mem_exactly_succ.mpr ⟨z', hz', hy'⟩, hS⟩

/-- Where classes and boundaries carry over from one place to another, so do matches. -/
theorem ends_sim {P B : (Char → Bool) → Prop}
    (hcls : ∀ p, P p → ∀ {x x' c s}, S x x' → x.after = c :: s → p c = true →
      ∃ s', x'.after = c :: s' ∧ S ⟨some c, s⟩ ⟨some c, s'⟩)
    (hboundary : ∀ word, B word → ∀ {x x'}, S x x' → x.isBoundary word = true → x'.isBoundary word = true)
    (r : Regex) (hr : r.Forall P B) (hwf : r.wellFormed = true) {x x' y : Place} (hS : S x x') (h : y ∈ ends r x) :
    ∃ y' ∈ ends r x', S y y' := by
  induction r generalizing x x' y with
  | cls p =>
    obtain ⟨c, hx, hb, hc⟩ := mem_ends_cls.mp h
    obtain ⟨s', hx', hS'⟩ := hcls p hr hS hx hc
    have hy : y = ⟨some c, y.after⟩ := Place.ext hb rfl
    rw [← hy] at hS'
    exact ⟨⟨some c, s'⟩, mem_ends_cls.mpr ⟨c, hx', rfl, hc⟩, hS'⟩
  | boundary word =>
    obtain ⟨hx, rfl⟩ := mem_ends_boundary.mp h
    exact ⟨x', mem_ends_boundary.mpr ⟨hboundary word hr hS hx, rfl⟩, hS⟩
  | seq r s ihr ihs =>
    obtain ⟨hwr, hws⟩ := Bool.and_eq_true_iff.mp hwf
    obtain ⟨z, hz, hy⟩ := mem_ends_seq.mp h
    obtain ⟨z', hz', hS⟩ := ihr hr.1 hwr hS hz
    obtain ⟨y', hy', hS⟩ := ihs hr.2 hws hS hy
    exact ⟨y', mem_ends_seq.mpr ⟨z', hz', hy'⟩, hS⟩
  | alt r s ihr ihs =>
    obtain ⟨hwr, hws⟩ := Bool.and_eq_true_iff.mp hwf
    rcases mem_ends_alt.mp h with h | h
    · obtain ⟨y', hy', hS⟩ := ihr hr.1 hwr hS h
      exact ⟨y', mem_ends_alt.mpr (.inl hy'), hS⟩
    · obtain ⟨y', hy', hS⟩ := ihs hr.2 hws hS h
      exact ⟨y', mem_ends_alt.mpr (.inr hy'), hS⟩
  | rep r min max ihr =>
    obtain ⟨hwr, hmax⟩ := Bool.and_eq_true_iff.mp hwf
    have hmax := Bool.or_eq_true_iff.mp hmax
    obtain ⟨z, hz, k, hk, hy⟩ := (mem_ends_rep hmax).mp h
    obtain ⟨z', hz', hS⟩ := exactly_sim (fun hS y hy => ihr hr hwr hS hy) hS hz
    obtain ⟨y', hy', hS⟩ := exactly_sim (fun hS y hy => ihr hr hwr hS hy) hS hy
    exact ⟨y', (mem_ends_rep hmax).mpr ⟨z', hz', k, hk, hy'⟩, hS⟩

end

/-! ## What a match takes -/

theorem exactly_takes {f : Place → List Place} {P : Char → Prop} (hf : ∀ x, ∀ y ∈ f x, ∃ w, x.Over w y ∧ ∀ c ∈ w, P c)
    {n : Nat} {x y : Place} (h : y ∈ exactly f n x) : ∃ w, x.Over w y ∧ ∀ c ∈ w, P c := by
  induction n generalizing x with
  | zero =>
    obtain rfl := List.mem_singleton.mp h
    exact ⟨[], .refl y, nofun⟩
  | succ n ih =>
    obtain ⟨z, hz, hy⟩ := mem_exactly_succ.mp h
    obtain ⟨v, hv, hpv⟩ := hf x z hz
    obtain ⟨w, hw, hpw⟩ := ih hy
    exact ⟨v ++ w, hv.trans hw, List.forall_mem_append.mpr ⟨hpv, hpw⟩⟩

/-- A match takes characters of its classes only. -/
theorem ends_takes {P : Char → Prop} {B : (Char → Bool) → Prop} (r : Regex)
    (hr : r.Forall (fun p => ∀ c, p c = true → P c) B) {x y : Place} (h : y ∈ ends r x) :
    ∃ w, x.Over w y ∧ ∀ c ∈ w, P c := by
  induction r generalizing x y with
  | cls p =>
    obtain ⟨c, hx, hb, hc⟩ := mem_ends_cls.mp h
    exact ⟨[c], ⟨hx, hb⟩, by simpa using hr c hc⟩
  | boundary word =>
    obtain ⟨-, rfl⟩ := mem_ends_boundary.mp h
    exact ⟨[], .refl y, nofun⟩
  | seq r s ihr ihs =>
    obtain ⟨z, hz, hy⟩ := mem_ends_seq.mp h
    obtain ⟨v, hv, hpv⟩ := ihr hr.1 hz
    obtain ⟨w, hw, hpw⟩ := ihs hr.2 hy
    exact ⟨v ++ w, hv.trans hw, List.forall_mem_append.mpr ⟨hpv, hpw⟩⟩
  | alt r s ihr ihs =>
    rcases mem_ends_alt.mp h with h | h
    · exact ihr hr.1 h
    · exact ihs hr.2 h
  | rep r min max ihr =>
    obtain ⟨z, hz, hy⟩ := List.mem_flatMap.mp h
    obtain ⟨k, -, hy⟩ := mem_upTo_iff.mp hy
    obtain ⟨v, hv, hpv⟩ := exactly_takes (fun _ _ => ihr hr) hz
    obtain ⟨w, hw, hpw⟩ := exactly_takes (fun _ _ => ihr hr) hy
    exact ⟨v ++ w, hv.trans hw, List.forall_mem_append.mpr ⟨hpv, hpw⟩⟩

theorem ends_needs {P : Char → Prop} (r : Regex) (hr : r.Needs P) {x y : Place} (h : y ∈ ends r x) :
    ∃ w, x.Over w y ∧ ∃ c ∈ w, P c := by
  induction r generalizing x y with
  | cls p =>
    obtain ⟨c, hx, hb, hc⟩ := mem_ends_cls.mp h
    exact ⟨[c], ⟨hx, hb⟩, c, List.mem_cons_self, hr c hc⟩
  | boundary word => exact hr.elim
  | seq r s ihr ihs =>
    obtain ⟨z, hz, hy⟩ := mem_ends_seq.mp h
    rcases hr with hr | hs
    · obtain ⟨v, hv, c, hc, hp⟩ := ihr hr hz
      obtain ⟨w, hw⟩ := over_of_mem_ends s hy
      exact ⟨v ++ w, hv.trans hw, c, List.mem_append_left _ hc, hp⟩
    · obtain ⟨v, hv⟩ := over_of_mem_ends r hz
      obtain ⟨w, hw, c, hc, hp⟩ := ihs hs hy
      exact ⟨v ++ w, hv.trans hw, c, List.mem_append_right _ hc, hp⟩
  | alt r s ihr ihs =>
    rcases mem_ends_alt.mp h with h | h
    · exact ihr hr.1 h
    · exact ihs hr.2 h
  | rep r min max ihr =>
    obtain ⟨hmin, hr⟩ := hr
    obtain ⟨n, rfl⟩ := Nat.exists_eq_succ_of_ne_zero (Nat.pos_iff_ne_zero.mp hmin)
    obtain ⟨z, hz, hy⟩ := List.mem_flatMap.mp h
    obtain ⟨u, hu, hz⟩ := mem_exactly_succ.mp hz
    obtain ⟨k, -, hy⟩ := mem_upTo_iff.mp hy
    obtain ⟨t, ht, c, hc, hp⟩ := ihr hr hu
    obtain ⟨v, hv⟩ := over_of_mem_exactly (fun _ _ => over_of_mem_ends r) hz
    obtain ⟨w, hw⟩ := over_of_mem_exactly (fun _ _ => over_of_mem_ends r) hy
    exact ⟨t ++ (v ++ w), ht.trans (hv.trans hw), c, List.mem_append_left _ hc, hp⟩

/-! ## Repeated classes -/

theorem mem_exactly_cls {p : Char → Bool} {n : Nat} {x y : Place} :
    y ∈ exactly (ends (cls p)) n x ↔ ∃ w, x.Over w y ∧ w.length = n ∧ ∀ c ∈ w, p c = true := by
  induction n generalizing x with
  | zero =>
    constructor
    · intro h
      obtain rfl := List.mem_singleton.mp h
      exact ⟨[], .refl y, rfl, nofun⟩
    · rintro ⟨w, hw, hlen, -⟩
      obtain rfl := List.eq_nil_of_length_eq_zero hlen
      exact List.mem_singleton.mpr (Place.ext hw.2 hw.1.symm)
  | succ n ih =>
    rw [mem_exactly_succ]
    constructor
    · rintro ⟨z, hz, hy⟩
      obtain ⟨c, hx, hb, hc⟩ := mem_ends_cls.mp hz
      obtain ⟨w, hw, rfl, hall⟩ := ih.mp hy
      have hover : x.Over [c] z := ⟨hx, hb⟩
      exact ⟨c :: w, hover.trans hw, rfl, List.forall_mem_cons.mpr ⟨hc, hall⟩⟩
    · rintro ⟨w, hw, hlen, hall⟩
      cases w with
      | nil => cases hlen
      | cons c w =>
        obtain ⟨hc, hall⟩ := List.forall_mem_cons.mp hall
        refine ⟨⟨some c, w ++ y.after⟩, mem_ends_cls.mpr ⟨c, hw.1, rfl, hc⟩, ih.mpr ⟨w, ⟨rfl, ?_⟩, Nat.succ.inj hlen, hall⟩⟩
        rw [hw.2, Place.Over.before_cons]

theorem mem_exactly_add {f : Place → List Place} {m n : Nat} {x y : Place} :
    y ∈ exactly f (m + n) x ↔ ∃ z ∈ exactly f m x, y ∈ exactly f n z := by
  induction m generalizing x with
  | zero => simp [exactly]
  | succ m ih =>
    rw [Nat.add_right_comm, mem_exactly_succ]
    simp only [ih, mem_exactly_succ]
    constructor
    · rintro ⟨z, hz, u, hu, hy⟩
      exact ⟨u, ⟨z, hz, hu⟩, hy⟩
    · rintro ⟨u, ⟨z, hz, hu⟩, hy⟩
      exact ⟨z, hz, u, hu, hy⟩

/-- As many characters of a class as there are. -/
theorem mem_ends_many {p : Char → Bool} {n : Nat} {x y : Place} {w : List Char} (hw : x.Over w y) (hn : n ≤ w.length)
    (hall : ∀ c ∈ w, p c = true) : y ∈ ends (rep (cls p) n none) x := by
  have hlen : n + (w.length - n) = w.length := by omega
  obtain ⟨z, hz, hy⟩ := mem_exactly_add.mp (hlen ▸ mem_exactly_cls.mpr ⟨w, hw, rfl, hall⟩)
  exact (mem_ends_rep (.inr rfl)).mpr ⟨z, hz, _, nofun, hy⟩

theorem over_of_mem_times {p : Char → Bool} {n : Nat} {x y : Place} (h : y ∈ ends (rep (cls p) n (some n)) x) :
    ∃ w, x.Over w y ∧ w.length = n ∧ ∀ c ∈ w, p c = true := by
  obtain ⟨z, hz, k, hk, hy⟩ := (mem_ends_rep (.inl rfl)).mp h
  have hk : k ≤ n - n := hk n rfl
  obtain rfl : k = 0 := by omega
  obtain rfl := List.mem_singleton.mp hy
  exact mem_exactly_cls.mp hz

theorem isMatchAt_of_ends {q r : Regex} (h : ∀ x, ends q x ≠ [] → ends r x ≠ []) {b : Option Char} {s : List Char}
    (hq : isMatchAt q b s = true) : isMatchAt r b s = true := by
  have hends : ∀ x, (!(ends q x).isEmpty) = true → (!(ends r x).isEmpty) = true := by
    intro x hx
    simp only [Bool.not_eq_true', List.isEmpty_eq_false_iff] at hx ⊢
    exact h x hx
  induction s generalizing b with
  | nil => exact hends _ hq
  | cons c s ih =>
    rw [isMatchAt, Bool.or_eq_true_iff] at hq ⊢
    exact hq.imp (hends _) ih

/-! ## Splitting a text -/

def originals (ps : List Piece) : List Char := ps.flatMap Piece.original

/-- The pieces of a text that begins after `b`: no match begins with a character that is
kept, and every hit is a match. -/
inductive Valid (r : Regex) : Option Char → List Piece → Prop where
  | nil {b} : Valid r b []
  | kept {b c ps} : ends r ⟨b, c :: originals ps⟩ = [] → Valid r (some c) ps → Valid r b (.kept c :: ps)
  | hit {b m ps} : m ≠ [] → ⟨m.getLast?.or b, originals ps⟩ ∈ ends r ⟨b, m ++ originals ps⟩ →
    Valid r (m.getLast?.or b) ps → Valid r b (.hit m :: ps)

theorem valid_pieces {r : Regex} (hr : r.consumes = true) {fuel : Nat} {x : Place} (h : x.after.length < fuel) :
    Valid r x.before (pieces r fuel x) ∧ originals (pieces r fuel x) = x.after := by
  induction fuel generalizing x with
  | zero => cases h
  | succ fuel ih =>
    obtain ⟨b, s⟩ := x
    unfold pieces
    cases s with
    | nil => exact ⟨.nil, rfl⟩
    | cons c s =>
      dsimp only
      cases hends : ends r ⟨b, c :: s⟩ with
      | nil =>
        obtain ⟨hvalid, htext⟩ := ih (Nat.lt_of_succ_lt_succ h : (Place.mk (some c) s).after.length < fuel)
        refine ⟨.kept ?_ hvalid, congrArg (c :: ·) htext⟩
        rw [htext]
        exact hends
      | cons y ys =>
        have hmem : y ∈ ends r ⟨b, c :: s⟩ := by rw [hends]; exact List.mem_cons_self
        have hlt : y.after.length < (c :: s).length := length_of_mem_ends hr hmem
        obtain ⟨w, hw⟩ := over_of_mem_ends r hmem
        have hlen : (c :: s).length = w.length + y.after.length := hw.length
        have htake : (c :: s).take ((c :: s).length - y.after.length) = w := by
          rw [show c :: s = w ++ y.after from hw.1, List.length_append, Nat.add_sub_cancel, List.take_left]
        have hfuel : y.after.length < fuel := by
          have : (c :: s).length < fuel + 1 := h
          omega
        obtain ⟨hvalid, htext⟩ := ih hfuel
        have hwnil : w ≠ [] := by
          rintro rfl
          simp at hlen hlt
          omega
        dsimp only
        rw [if_pos hlt, htake]
        have hy : y = ⟨w.getLast?.or b, y.after⟩ := Place.ext hw.2 rfl
        have hstart : c :: s = w ++ y.after := hw.1
        refine ⟨.hit hwnil ?_ (hw.2 ▸ hvalid), ?_⟩
        · rw [htext, ← hy, ← hstart]
          exact hmem
        · rw [hstart, ← htext]
          rfl

theorem valid_split {r : Regex} (hr : r.consumes = true) (text : List Char) :
    Valid r none (split r text) ∧ originals (split r text) = text :=
  valid_pieces (x := ⟨none, text⟩) hr (Nat.lt_succ_self text.length)

theorem isMatchAt_append {r : Regex} {b : Option Char} {v s : List Char} (h : isMatchAt r (v.getLast?.or b) s = true) :
    isMatchAt r b (v ++ s) = true := by
  induction v generalizing b with
  | nil => exact h
  | cons c v ih =>
    rw [Place.Over.before_cons] at h
    rw [List.cons_append, isMatchAt, ih h, Bool.or_true]

theorem isMatchAt_of_mem {r : Regex} {b : Option Char} {s : List Char} {y : Place} (h : y ∈ ends r ⟨b, s⟩) :
    isMatchAt r b s = true := by
  have hne : (ends r ⟨b, s⟩).isEmpty = false := List.isEmpty_eq_false_iff.mpr (List.ne_nil_of_mem h)
  cases s with
  | nil => simp [isMatchAt, hne]
  | cons c s => simp [isMatchAt, hne]

/-- There is a hit where there is a match. -/
theorem any_isHit_iff {r : Regex} (hr : r.consumes = true) {b : Option Char} {ps : List Piece} (h : Valid r b ps) :
    ps.any Piece.isHit = isMatchAt r b (originals ps) := by
  induction h with
  | @nil b =>
    have hnone : ends r ⟨b, []⟩ = [] := by
      by_contra hne
      obtain ⟨y, hy⟩ := List.exists_mem_of_ne_nil _ hne
      exact absurd (length_of_mem_ends hr hy) (Nat.not_lt_zero _)
    simp [originals, isMatchAt, hnone]
  | @kept b c ps hnone _ ih =>
    have htext : originals (.kept c :: ps) = c :: originals ps := rfl
    rw [List.any_cons, ih, htext, isMatchAt, hnone]
    rfl
  | @hit b m ps hm hmem _ _ =>
    have htext : originals (.hit m :: ps) = m ++ originals ps := rfl
    rw [List.any_cons, htext, isMatchAt_of_mem hmem]
    rfl

theorem countMatches_pos {r : Regex} (hr : r.consumes = true) (text : List Char) :
    0 < countMatches r text ↔ isMatch r text = true := by
  obtain ⟨hvalid, htext⟩ := valid_split hr text
  have hany := any_isHit_iff hr hvalid
  rw [htext] at hany
  rw [isMatch, ← hany, countMatches, List.length_pos_iff, ne_eq, List.filter_eq_nil_iff, List.any_eq_true]
  push Not
  rfl

/-! ## Replacing matches by a text in brackets -/

/-- Matches of `r` begin and end at boundaries of words. -/
def Delimited (word : Char → Bool) (r : Regex) : Prop :=
  ∀ {x y}, y ∈ ends r x → x.isBoundary word = true ∧ y.isBoundary word = true

theorem delimited_of_boundaries (word : Char → Bool) (r : Regex) :
    Delimited word (seq (boundary word) (seq r (boundary word))) := by
  intro x y h
  obtain ⟨u, hu, hinner⟩ := mem_ends_seq.mp h
  obtain ⟨z, -, hz⟩ := mem_ends_seq.mp hinner
  exact ⟨(mem_ends_boundary.mp hu).1, (mem_ends_boundary.mp hz).2 ▸ (mem_ends_boundary.mp hz).1⟩

/-- No match of `q` reaches across the marker or lies within it. -/
structure Apart (q : Regex) (opener : Char) (inner : List Char) (closer : Char) : Prop where
  wellFormed : q.wellFormed = true
  brackets : q.Forall (fun p => p opener = false ∧ p closer = false) fun _ => True
  needs : ∃ P : Char → Prop, q.Needs P ∧ ∀ c ∈ opener :: inner, ¬ P c

/-- No match of `q` begins with a character that is kept. -/
def Quiet (q : Regex) : Option Char → List Piece → Prop
  | _, [] => True
  | b, .kept c :: ps => ends q ⟨b, c :: originals ps⟩ = [] ∧ Quiet q (some c) ps
  | b, .hit m :: ps => Quiet q (m.getLast?.or b) ps

theorem Valid.quiet {r : Regex} {b : Option Char} {ps : List Piece} (h : Valid r b ps) : Quiet r b ps := by
  induction h with
  | nil => trivial
  | kept hnone _ ih => exact ⟨hnone, ih⟩
  | hit _ _ _ ih => exact ih

theorem quiet_of_not_isMatchAt {q : Regex} {b : Option Char} {ps : List Piece} (h : isMatchAt q b (originals ps) = false) :
    Quiet q b ps := by
  induction ps generalizing b with
  | nil => trivial
  | cons piece ps ih =>
    cases piece with
    | kept c =>
      have htext : originals (.kept c :: ps) = c :: originals ps := rfl
      rw [htext, isMatchAt, Bool.or_eq_false_iff, Bool.not_eq_false', List.isEmpty_iff] at h
      exact ⟨h.1, ih h.2⟩
    | hit m =>
      refine ih ?_
      by_contra hmatch
      have htext : originals (.hit m :: ps) = m ++ originals ps := rfl
      rw [htext, isMatchAt_append (by simpa using hmatch)] at h
      cases h

section
variable {q r : Regex} {opener closer : Char} {inner : List Char}

def replacement (opener : Char) (inner : List Char) (closer : Char) (ps : List Piece) : List Char :=
  ps.flatMap (Piece.replaced (opener :: inner ++ [closer]))

/-- The same pieces after them, in the new text and in the old one. The characters before
them are the same, or the old place is where a match of `r` ended. -/
def Aligned (r : Regex) (opener : Char) (inner : List Char) (closer : Char) (x x' : Place) : Prop :=
  ∃ b b' ps, Valid r b ps ∧ x = ⟨b', replacement opener inner closer ps⟩ ∧ x' = ⟨b, originals ps⟩ ∧
    (b' = b ∨ ∀ word, Delimited word r → x'.isBoundary word = true)

theorem Aligned.cls {p : Char → Bool} (hp : p opener = false) {x x' : Place} {c : Char} {s : List Char}
    (h : Aligned r opener inner closer x x') (hx : x.after = c :: s) (hc : p c = true) :
    ∃ s', x'.after = c :: s' ∧ Aligned r opener inner closer ⟨some c, s⟩ ⟨some c, s'⟩ := by
  obtain ⟨b, b', ps, hvalid, rfl, rfl, -⟩ := h
  cases hvalid with
  | nil => cases hx
  | @kept _ d ps _ hvalid =>
    obtain ⟨rfl, rfl⟩ := List.cons.inj hx
    exact ⟨_, rfl, some d, some d, ps, hvalid, rfl, rfl, .inl rfl⟩
  | hit =>
    obtain ⟨rfl, -⟩ := List.cons.inj hx
    rw [hp] at hc
    cases hc

theorem Aligned.boundary {word : Char → Bool} (hr : Delimited word r) {x x' : Place}
    (h : Aligned r opener inner closer x x') (hx : x.isBoundary word = true) : x'.isBoundary word = true := by
  obtain ⟨b, b', ps, hvalid, rfl, rfl, rfl | hend⟩ := h
  · cases hvalid with
    | nil => exact hx
    | kept => exact hx
    | hit _ hmem _ => exact (hr hmem).1
  · exact hend word hr

/-- A match of `q` in the new text, from pieces on, is one in the old text. -/
theorem Aligned.ends (hq : Apart q opener inner closer) (hqr : q.Forall (fun _ => True) fun word => Delimited word r)
    {x x' : Place} (h : Aligned r opener inner closer x x') (hnone : Regex.ends q x' = []) : Regex.ends q x = [] := by
  by_contra hne
  obtain ⟨y, hy⟩ := List.exists_mem_of_ne_nil _ hne
  obtain ⟨y', hy', -⟩ := ends_sim (fun p hp => Aligned.cls hp.1.1) (fun word hword => Aligned.boundary hword.2) q
    (hq.brackets.and hqr) hq.wellFormed h hy
  rw [hnone] at hy'
  cases hy'

/-- No match begins before the closing bracket. -/
theorem ends_before_closer (hq : Apart q opener inner closer) {P : Char → Prop} (hneeds : q.Needs P) {v : List Char}
    (hv : ∀ c ∈ v, ¬ P c) (b : Option Char) (s : List Char) : Regex.ends q ⟨b, v ++ closer :: s⟩ = [] := by
  by_contra hne
  obtain ⟨y, hy⟩ := List.exists_mem_of_ne_nil _ hne
  obtain ⟨w, hw, c, hc, hp⟩ := ends_needs q hneeds hy
  have hclasses : q.Forall (fun p => ∀ c, p c = true → c ≠ closer) fun _ => True :=
    hq.brackets.imp (fun p hp c hc => by
      rintro rfl
      rw [hp.2] at hc
      cases hc) fun _ => id
  obtain ⟨w', hw', hall⟩ := ends_takes q hclasses hy
  obtain rfl : w = w' := List.append_cancel_right (hw.1.symm.trans hw'.1)
  have htext : v ++ closer :: s = w ++ y.after := hw.1
  rcases List.append_eq_append_iff.mp htext with ⟨u, rfl, hu⟩ | ⟨u, rfl, -⟩
  · cases u with
    | nil => exact hv c (by simpa using hc) hp
    | cons d u =>
      obtain ⟨rfl, -⟩ := List.cons.inj hu
      exact hall closer (by simp) rfl
  · exact hv c (List.mem_append_left _ hc) hp

theorem isMatchAt_before_closer (hq : Apart q opener inner closer) {P : Char → Prop} (hneeds : q.Needs P) {v : List Char}
    (hv : ∀ c ∈ v, ¬ P c) (b : Option Char) (s : List Char) :
    isMatchAt q b (v ++ closer :: s) = isMatchAt q (some closer) s := by
  induction v generalizing b with
  | nil =>
    have hnone := ends_before_closer hq hneeds hv b s
    rw [List.nil_append] at hnone ⊢
    rw [isMatchAt, hnone]
    rfl
  | cons c v ih =>
    have hnone := ends_before_closer hq hneeds hv b s
    rw [List.cons_append] at hnone ⊢
    rw [isMatchAt, hnone, ih (List.forall_mem_cons.mp hv).2]
    rfl

/-- Where no match of `q` begins with a kept character, the new text has none. -/
theorem isMatchAt_replacement (hq : Apart q opener inner closer)
    (hqr : q.Forall (fun _ => True) fun word => Delimited word r) {b b' : Option Char} {ps : List Piece}
    (hvalid : Valid r b ps) (hquiet : Quiet q b ps)
    (hbefore : b' = b ∨ ∀ word, Delimited word r → (Place.mk b (originals ps)).isBoundary word = true) :
    isMatchAt q b' (replacement opener inner closer ps) = false := by
  obtain ⟨P, hneeds, hP⟩ := hq.needs
  induction hvalid generalizing b' with
  | nil =>
    have hnone : Regex.ends q ⟨b', []⟩ = [] := by
      by_contra hne
      obtain ⟨y, hy⟩ := List.exists_mem_of_ne_nil _ hne
      obtain ⟨w, hw, c, hc, -⟩ := ends_needs q hneeds hy
      have hnil : w ++ y.after = [] := hw.1.symm
      rw [(List.append_eq_nil_iff.mp hnil).1] at hc
      cases hc
    simp [replacement, isMatchAt, hnone]
  | @kept b c ps hkept hvalid ih =>
    have haligned : Aligned r opener inner closer ⟨b', replacement opener inner closer (.kept c :: ps)⟩
        ⟨b, originals (.kept c :: ps)⟩ := ⟨b, b', _, .kept hkept hvalid, rfl, rfl, hbefore⟩
    have hnone := haligned.ends hq hqr hquiet.1
    have htext : replacement opener inner closer (.kept c :: ps) = c :: replacement opener inner closer ps := rfl
    rw [htext] at hnone ⊢
    rw [isMatchAt, hnone, ih hquiet.2 (.inl rfl)]
    rfl
  | @hit b m ps hm hmem hvalid ih =>
    have htext : replacement opener inner closer (.hit m :: ps) =
        (opener :: inner) ++ closer :: replacement opener inner closer ps := by
      simp [replacement, Piece.replaced]
    rw [htext, isMatchAt_before_closer hq hneeds hP]
    exact ih hquiet (.inr fun word hword => (hword hmem).2)

/-- The new text has no match of what was replaced. -/
theorem isMatch_replaceAll_self (hr : r.consumes = true) (hq : Apart r opener inner closer)
    (hdelimited : r.Forall (fun _ => True) fun word => Delimited word r) (text : List Char) :
    isMatch r (replaceAll r (opener :: inner ++ [closer]) text) = false := by
  obtain ⟨hvalid, -⟩ := valid_split hr text
  exact isMatchAt_replacement hq hdelimited hvalid hvalid.quiet (.inl rfl)

/-- The new text has no match of another expression that the old text did not have. -/
theorem isMatch_replaceAll (hr : r.consumes = true) (hq : Apart q opener inner closer)
    (hdelimited : q.Forall (fun _ => True) fun word => Delimited word r) {text : List Char}
    (h : isMatch q text = false) : isMatch q (replaceAll r (opener :: inner ++ [closer]) text) = false := by
  obtain ⟨hvalid, htext⟩ := valid_split hr text
  have hquiet : Quiet q none (split r text) := by
    refine quiet_of_not_isMatchAt ?_
    rw [htext]
    exact h
  exact isMatchAt_replacement hq hdelimited hvalid hquiet (.inl rfl)

end

end Regex

end Llmctl
