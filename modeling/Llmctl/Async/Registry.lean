import Mathlib.Data.List.Nodup

/-!
# Pruned tables of shared objects

A table hands out references to one object for each name and makes the object where
there is none. What is no longer referenced may be pruned, and a later caller then
gets a new object. Two referenced objects of one name are the same (`Sound.unique`).
-/

namespace Async

/-- The objects are numbered; `refs` counts the references to each that are out. -/
structure Registry (κ : Type) where
  entries : List (κ × Nat)
  names : List κ
  refs : Nat → Nat

namespace Registry

variable {κ : Type} [DecidableEq κ]

def empty : Registry κ := ⟨[], [], fun _ => 0⟩

def find (r : Registry κ) (k : κ) : Option Nat := (r.entries.find? fun e => e.1 = k).map (·.2)

/-- The table's own reference counts. -/
def strongCount (r : Registry κ) (o : Nat) : Nat := r.refs o + r.entries.countP fun e => e.2 = o

def clone (r : Registry κ) (o : Nat) : Registry κ := { r with refs := Function.update r.refs o (r.refs o + 1) }

def release (r : Registry κ) (o : Nat) : Registry κ := { r with refs := Function.update r.refs o (r.refs o - 1) }

def insert (r : Registry κ) (k : κ) : Registry κ where
  entries := r.entries ++ [(k, r.names.length)]
  names := r.names ++ [k]
  refs := Function.update r.refs r.names.length 1

/-- The object of `k`, which the caller now references. -/
def entry (r : Registry κ) (k : κ) : Nat × Registry κ :=
  match r.find k with
  | some o => (o, r.clone o)
  | none => (r.names.length, r.insert k)

def retain (r : Registry κ) (pruned : List κ) : Registry κ :=
  { r with entries := r.entries.filter fun e => e.1 ∉ pruned }

/-- From `max` names on, entries may go whose only reference is the table's. -/
def canRetain (r : Registry κ) (max : Nat) (pruned : List κ) : Bool :=
  decide ((r.entries.length < max → pruned = []) ∧ ∀ e ∈ r.entries, e.1 ∈ pruned → r.strongCount e.2 = 1)

structure Sound (r : Registry κ) : Prop where
  named : ∀ e ∈ r.entries, r.names[e.2]? = some e.1
  keyed : (r.entries.map (·.1)).Nodup
  tracked : ∀ o, 0 < r.refs o → ∃ k, (k, o) ∈ r.entries

section
variable {r : Registry κ} {o o' : Nat} {k : κ}

omit [DecidableEq κ] in
theorem Sound.empty : Sound (empty : Registry κ) := by
  constructor <;> simp [Registry.empty]

omit [DecidableEq κ] in
theorem Sound.lt_length (h : r.Sound) (ho : 0 < r.refs o) : o < r.names.length := by
  obtain ⟨k, hk⟩ := h.tracked o ho
  exact (List.getElem?_eq_some_iff.mp (h.named _ hk)).1

theorem mem_of_find (hf : r.find k = some o) : (k, o) ∈ r.entries := by
  unfold find at hf
  obtain ⟨⟨k', o'⟩, he, rfl⟩ := Option.map_eq_some_iff.mp hf
  have hk : k' = k := by simpa using List.find?_some he
  subst hk
  exact List.mem_of_find?_eq_some he

theorem not_mem_of_find (hf : r.find k = none) : ∀ e ∈ r.entries, e.1 ≠ k := by
  unfold find at hf
  simpa using hf

omit [DecidableEq κ] in
theorem Sound.object_unique (h : r.Sound) (hk : (k, o) ∈ r.entries) (hk' : (k, o') ∈ r.entries) : o = o' :=
  congrArg Prod.snd (List.inj_on_of_nodup_map h.keyed hk hk' rfl)

theorem Sound.find_eq (h : r.Sound) (hk : (k, o) ∈ r.entries) : r.find k = some o := by
  cases hf : r.find k with
  | none => exact absurd rfl (not_mem_of_find hf _ hk)
  | some o' => rw [h.object_unique hk (mem_of_find hf)]

/-- A referenced object is the one that its name finds. -/
theorem Sound.find_of_refs (h : r.Sound) (ho : 0 < r.refs o) (hk : r.names[o]? = some k) : r.find k = some o := by
  obtain ⟨k', hk'⟩ := h.tracked o ho
  have hname := h.named _ hk'
  rw [hk] at hname
  cases hname
  exact h.find_eq hk'

theorem Sound.unique (h : r.Sound) (ho : 0 < r.refs o) (ho' : 0 < r.refs o') (hk : r.names[o]? = some k)
    (hk' : r.names[o']? = some k) : o = o' :=
  Option.some.inj ((h.find_of_refs ho hk).symm.trans (h.find_of_refs ho' hk'))

omit [DecidableEq κ] in
theorem Sound.clone (h : r.Sound) (hk : (k, o) ∈ r.entries) : (r.clone o).Sound where
  named := h.named
  keyed := h.keyed
  tracked o' ho' := by
    by_cases hoo : o' = o
    · exact ⟨k, hoo ▸ hk⟩
    · simp only [Registry.clone, Function.update_of_ne hoo] at ho'
      exact h.tracked o' ho'

omit [DecidableEq κ] in
theorem Sound.release (h : r.Sound) : (r.release o).Sound where
  named := h.named
  keyed := h.keyed
  tracked o' ho' := by
    by_cases hoo : o' = o
    · subst hoo
      simp only [Registry.release, Function.update_self] at ho'
      exact h.tracked o' (by omega)
    · simp only [Registry.release, Function.update_of_ne hoo] at ho'
      exact h.tracked o' ho'

theorem Sound.insert (h : r.Sound) (hf : r.find k = none) : (r.insert k).Sound where
  named e he := by
    simp only [Registry.insert, List.mem_append, List.mem_singleton] at he ⊢
    rcases he with he | rfl
    · have hname := h.named e he
      rw [List.getElem?_append_left (List.getElem?_eq_some_iff.mp hname).1]
      exact hname
    · simp
  keyed := by
    simp only [Registry.insert, List.map_append, List.map_cons, List.map_nil]
    refine h.keyed.append (List.nodup_singleton k) fun k' hk' hks => ?_
    obtain ⟨e, he, rfl⟩ := List.mem_map.mp hk'
    exact not_mem_of_find hf e he (List.mem_singleton.mp hks)
  tracked o' ho' := by
    simp only [Registry.insert, List.mem_append, List.mem_singleton] at ho' ⊢
    by_cases hoo : o' = r.names.length
    · exact ⟨k, .inr (by rw [hoo])⟩
    · rw [Function.update_of_ne hoo] at ho'
      obtain ⟨k', hk'⟩ := h.tracked o' ho'
      exact ⟨k', .inl hk'⟩

theorem Sound.entry (h : r.Sound) (k : κ) : (r.entry k).2.Sound := by
  unfold Registry.entry
  cases hf : r.find k with
  | some o => exact h.clone (mem_of_find hf)
  | none => exact h.insert hf

/-- Pruning takes no object away from a holder of a reference. -/
theorem Sound.retain (h : r.Sound) {max : Nat} {pruned : List κ} (hc : r.canRetain max pruned = true) :
    (r.retain pruned).Sound where
  named e he := h.named e (List.mem_filter.mp he).1
  keyed := h.keyed.sublist (List.filter_sublist.map _)
  tracked o ho := by
    obtain ⟨k, hk⟩ := h.tracked o ho
    refine ⟨k, List.mem_filter.mpr ⟨hk, decide_eq_true fun hmem => ?_⟩⟩
    have hone : r.refs o + (r.entries.countP fun e => e.2 = o) = 1 := (of_decide_eq_true hc).2 _ hk hmem
    have hpos : 0 < r.entries.countP fun e => e.2 = o := List.countP_pos_iff.mpr ⟨_, hk, by simp⟩
    have ho' : 0 < r.refs o := ho
    omega

/-! ## What the caller gets -/

omit [DecidableEq κ] in
theorem Sound.refs_fresh (h : r.Sound) (ho : r.names.length ≤ o) : r.refs o = 0 := by
  by_contra hne
  have := h.lt_length (Nat.pos_of_ne_zero hne)
  omega

theorem Sound.entry_refs (h : r.Sound) (k : κ) (o : Nat) :
    (r.entry k).2.refs o = r.refs o + if o = (r.entry k).1 then 1 else 0 := by
  unfold Registry.entry
  cases hf : r.find k with
  | some o' =>
    simp only [Registry.clone, Function.update_apply]
    split <;> simp_all
  | none =>
    simp only [Registry.insert, Function.update_apply]
    split
    · rename_i ho
      rw [ho, h.refs_fresh (Nat.le_refl _)]
    · rfl

theorem Sound.entry_name (h : r.Sound) (k : κ) : (r.entry k).2.names[(r.entry k).1]? = some k := by
  unfold Registry.entry
  cases hf : r.find k with
  | some o => exact h.named _ (mem_of_find hf)
  | none => simp [Registry.insert]

theorem entry_names (k : κ) (ho : o < r.names.length) : (r.entry k).2.names[o]? = r.names[o]? := by
  unfold Registry.entry
  cases r.find k with
  | some o' => rfl
  | none => exact List.getElem?_append_left ho

omit [DecidableEq κ] in
theorem release_refs (o o' : Nat) : (r.release o).refs o' = r.refs o' - if o' = o then 1 else 0 := by
  simp only [Registry.release, Function.update_apply]
  split <;> simp_all

end

end Registry

end Async
