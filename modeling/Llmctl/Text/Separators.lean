import Mathlib.Data.List.Infix

/-!
# Texts with separators

Where no separator overlaps another one, a text that has none of them ends where the
first one begins, so what is written between separators can be read back.
-/

namespace Text

variable {α : Type} [DecidableEq α]

/-- From no place but its first does a separator run along another one. -/
def Separators (D : List (List α)) : Prop :=
  ∀ d ∈ D, d ≠ [] ∧ ∀ d' ∈ D, ∀ k < d.length, (d.drop k <+: d' ∨ d' <+: d.drop k) → k = 0 ∧ d = d'

instance (D : List (List α)) : Decidable (Separators D) :=
  inferInstanceAs (Decidable (∀ d ∈ D, d ≠ [] ∧ ∀ d' ∈ D, ∀ k < d.length,
    (d.drop k <+: d' ∨ d' <+: d.drop k) → k = 0 ∧ d = d'))

def Free (D : List (List α)) (c : List α) : Prop := ∀ d ∈ D, ¬ d <:+: c

instance (D : List (List α)) (c : List α) : Decidable (Free D c) :=
  inferInstanceAs (Decidable (∀ d ∈ D, ¬ d <:+: c))

variable {D : List (List α)} {c c' d d' r r' : List α}

omit [DecidableEq α] in
theorem Separators.length_le (h : Separators D) (hc' : Free D c') (hd : d ∈ D) (hd' : d' ∈ D)
    (heq : c ++ (d ++ r) = c' ++ (d' ++ r')) : c'.length ≤ c.length := by
  by_contra hlt
  rcases List.append_eq_append_iff.mp heq with ⟨as, hc, hrest⟩ | ⟨bs, hc, -⟩
  · rcases List.append_eq_append_iff.mp hrest with ⟨x, has, -⟩ | ⟨y, hdy, hy⟩
    · refine hc' d hd ⟨c, x, ?_⟩
      rw [hc, has, List.append_assoc]
    · by_cases hnil : y = []
      · refine hc' d hd ⟨c, [], ?_⟩
        rw [hc, hdy, hnil, List.append_nil, List.append_nil]
      · have hdrop : d.drop as.length = y := by rw [hdy, List.drop_left]
        have hk : as.length < d.length := by
          rw [hdy, List.length_append]
          have := List.length_pos_iff.mpr hnil
          omega
        have hcomp : y <+: d' ∨ d' <+: y :=
          List.prefix_or_prefix_of_prefix ⟨r, hy.symm⟩ ⟨r', rfl⟩
        have hzero := ((h d hd).2 d' hd' as.length hk (by rwa [hdrop])).1
        rw [hc, List.length_append] at hlt
        omega
  · rw [hc, List.length_append] at hlt
    omega

omit [DecidableEq α] in
/-- The first separator after a text that has none is where the text ends. -/
theorem Separators.first (h : Separators D) (hc : Free D c) (hc' : Free D c') (hd : d ∈ D) (hd' : d' ∈ D)
    (heq : c ++ (d ++ r) = c' ++ (d' ++ r')) : c = c' ∧ d = d' ∧ r = r' := by
  have hlen := Nat.le_antisymm (h.length_le hc hd' hd heq.symm) (h.length_le hc' hd hd' heq)
  obtain ⟨hcc, hrest⟩ := List.append_inj heq hlen
  have hcomp := List.prefix_or_prefix_of_prefix ⟨r, rfl⟩ ⟨r', hrest.symm⟩
  have hpos := List.length_pos_iff.mpr (h d hd).1
  have hdd := ((h d hd).2 d' hd' 0 hpos hcomp).2
  subst hdd
  exact ⟨hcc, rfl, List.append_cancel_left hrest⟩

/-! ## Chains

Parts with a label each; the separator before a part shows its label, and one with the
last label ends the chain. -/

section
variable {R : Type} (sep : R → List α) (cue : R) (last : List α)

/-- The first label, and the text after it. -/
def chain : List (R × List α) → R × List α
  | [] => (cue, last)
  | (r, c) :: parts => (r, c ++ (sep (chain parts).1 ++ (chain parts).2))

variable {sep cue last} {labels : List R} {parts parts' : List (R × List α)}

omit [DecidableEq α] in
theorem chain_label (hcue : cue ∈ labels) (hparts : ∀ p ∈ parts, p.1 ∈ labels) :
    (chain sep cue last parts).1 ∈ labels := by
  cases parts with
  | nil => exact hcue
  | cons p parts => exact hparts p (List.mem_cons_self ..)

omit [DecidableEq α] in
/-- A chain whose parts have no separators can be read back. -/
theorem chain_inj (hsep : Separators (labels.map sep)) (hinj : ∀ r ∈ labels, ∀ r' ∈ labels, sep r = sep r' → r = r')
    (hcue : cue ∈ labels) (hlast : Free (labels.map sep) last) :
    ∀ {parts parts' : List (R × List α)}, (∀ p ∈ parts, p.1 ∈ labels ∧ Free (labels.map sep) p.2) →
      (∀ p ∈ parts', p.1 ∈ labels ∧ Free (labels.map sep) p.2) →
      chain sep cue last parts = chain sep cue last parts' → parts = parts'
  | [], [], _, _, _ => rfl
  | [], (r, c) :: parts', _, h', heq => by
    have hmem := @chain_label _ _ sep cue last labels _ hcue fun p hp => (h' p (List.mem_cons_of_mem _ hp)).1
    have htext := congrArg Prod.snd heq
    refine absurd ?_ (hlast _ (List.mem_map_of_mem hmem))
    exact ⟨c, _, by rw [List.append_assoc]; exact htext.symm⟩
  | (r, c) :: parts, [], h, _, heq => by
    have hmem := @chain_label _ _ sep cue last labels _ hcue fun p hp => (h p (List.mem_cons_of_mem _ hp)).1
    have htext := congrArg Prod.snd heq
    refine absurd ?_ (hlast _ (List.mem_map_of_mem hmem))
    exact ⟨c, _, by rw [List.append_assoc]; exact htext⟩
  | (r, c) :: parts, (r', c') :: parts', h, h', heq => by
    obtain ⟨hp, hrest⟩ := List.forall_mem_cons.mp h
    obtain ⟨hp', hrest'⟩ := List.forall_mem_cons.mp h'
    have hmem := @chain_label _ _ sep cue last labels _ hcue fun p hp => (hrest p hp).1
    have hmem' := @chain_label _ _ sep cue last labels _ hcue fun p hp => (hrest' p hp).1
    obtain ⟨hc, hs, ht⟩ := hsep.first hp.2 hp'.2 (List.mem_map_of_mem hmem) (List.mem_map_of_mem hmem')
      (congrArg Prod.snd heq)
    have hchain : chain sep cue last parts = chain sep cue last parts' := Prod.ext (hinj _ hmem _ hmem' hs) ht
    have hr : r = r' := congrArg Prod.fst heq
    have hcc : c = c' := hc
    rw [hr, hcc, chain_inj hsep hinj hcue hlast hrest hrest' hchain]

end

/-! ## Turns

Each part is opened by its label and closed by `stop`; an opening without a part is the
cue for what follows. -/

section
variable {R : Type} (opening : R → List α) (stop : List α) (cue : R) (last : List α)

def turns (parts : List (R × List α)) : List α :=
  parts.flatMap (fun p => opening p.1 ++ (p.2 ++ stop)) ++ (opening cue ++ last)

/-- The end of one turn and the opening of the next. -/
def boundary (r : R) : List α := stop ++ opening r

variable {opening stop cue last} {labels : List R}

omit [DecidableEq α] in
theorem turns_eq (parts : List (R × List α)) :
    turns opening stop cue last parts =
      opening (chain (boundary opening stop) cue last parts).1 ++ (chain (boundary opening stop) cue last parts).2 := by
  induction parts with
  | nil => rfl
  | cons p parts ih =>
    have hcons : turns opening stop cue last (p :: parts) =
        opening p.1 ++ (p.2 ++ stop) ++ turns opening stop cue last parts := by
      simp [turns]
    rw [hcons, ih]
    simp [chain, boundary]

omit [DecidableEq α] in
theorem turns_inj (hopen : ∀ r ∈ labels, ∀ r' ∈ labels, (opening r <+: opening r' ∨ opening r' <+: opening r) → r = r')
    (hsep : Separators (labels.map (boundary opening stop))) (hcue : cue ∈ labels)
    (hlast : Free (labels.map (boundary opening stop)) last) {parts parts' : List (R × List α)}
    (h : ∀ p ∈ parts, p.1 ∈ labels ∧ Free (labels.map (boundary opening stop)) p.2)
    (h' : ∀ p ∈ parts', p.1 ∈ labels ∧ Free (labels.map (boundary opening stop)) p.2)
    (heq : turns opening stop cue last parts = turns opening stop cue last parts') : parts = parts' := by
  rw [turns_eq, turns_eq] at heq
  have hmem := @chain_label _ _ (boundary opening stop) cue last labels _ hcue fun p hp => (h p hp).1
  have hmem' := @chain_label _ _ (boundary opening stop) cue last labels _ hcue fun p hp => (h' p hp).1
  have hlabel := hopen _ hmem _ hmem' (List.prefix_or_prefix_of_prefix ⟨_, rfl⟩ ⟨_, heq.symm⟩)
  rw [hlabel] at heq
  refine chain_inj hsep (fun r hr r' hr' hrr => ?_) hcue hlast h h' (Prod.ext hlabel (List.append_cancel_left heq))
  have hopening := List.append_cancel_left hrr
  exact hopen r hr r' hr' (.inl (hopening ▸ List.prefix_refl _))

end

/-! ## Brackets

Parts with a label each, between an opening and a closing separator of the label. -/

section
variable {R : Type} (opening closing : R → List α)

def brackets (parts : List (R × List α)) : List α := parts.flatMap fun p => opening p.1 ++ (p.2 ++ closing p.1)

variable {opening closing}

omit [DecidableEq α] in
theorem brackets_inj (hopen : ∀ r r', (opening r <+: opening r' ∨ opening r' <+: opening r) → r = r')
    (hne : ∀ r, opening r ≠ []) (hclose : ∀ r, Separators [closing r]) :
    ∀ {parts parts' : List (R × List α)}, (∀ p ∈ parts, Free [closing p.1] p.2) →
      (∀ p ∈ parts', Free [closing p.1] p.2) → brackets opening closing parts = brackets opening closing parts' →
      parts = parts'
  | [], [], _, _, _ => rfl
  | [], (r, c) :: parts', _, _, heq => by
    simp [brackets, hne] at heq
  | (r, c) :: parts, [], _, _, heq => by
    simp [brackets, hne] at heq
  | (r, c) :: parts, (r', c') :: parts', h, h', heq => by
    obtain ⟨hp, hrest⟩ := List.forall_mem_cons.mp h
    obtain ⟨hp', hrest'⟩ := List.forall_mem_cons.mp h'
    simp only [brackets, List.flatMap_cons, List.append_assoc] at heq
    have hr : r = r' := hopen r r' (List.prefix_or_prefix_of_prefix ⟨_, rfl⟩ ⟨_, heq.symm⟩)
    subst hr
    obtain ⟨hc, -, ht⟩ := (hclose r).first hp hp' (List.mem_singleton_self _) (List.mem_singleton_self _)
      (List.append_cancel_left heq)
    have hparts : brackets opening closing parts = brackets opening closing parts' := ht
    have hcc : c = c' := hc
    rw [hcc, brackets_inj hopen hne hclose hrest hrest' hparts]

end

end Text
