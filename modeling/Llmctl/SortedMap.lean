import Mathlib.Data.List.Induction
import Mathlib.Data.List.Nodup
import Mathlib.Order.Lattice

/-!
# Maps in the order of their keys

Finite maps as lists of entries with increasing keys. A second value of a key takes the place
of the first.
-/

structure SortedMap (K V : Type) [LinearOrder K] where
  entries : List (K × V)
  sorted : entries.Pairwise fun e f => e.1 < f.1

namespace SortedMap

variable {K V : Type} [LinearOrder K]

def insertEntry (k : K) (v : V) : List (K × V) → List (K × V)
  | [] => [(k, v)]
  | e :: es =>
    if k = e.1 then (k, v) :: es
    else if k < e.1 then (k, v) :: e :: es
    else e :: insertEntry k v es

theorem mem_insertEntry {k : K} {v : V} {es : List (K × V)} {f : K × V} (h : f ∈ insertEntry k v es) :
    f = (k, v) ∨ f ∈ es := by
  induction es with
  | nil => exact .inl (List.mem_singleton.mp h)
  | cons e es ih =>
    unfold insertEntry at h
    split at h
    · rcases List.mem_cons.mp h with h | h
      · exact .inl h
      · exact .inr (List.mem_cons_of_mem _ h)
    · split at h
      · exact List.mem_cons.mp h
      · rcases List.mem_cons.mp h with rfl | h
        · exact .inr (by simp)
        · exact (ih h).imp_right (List.mem_cons_of_mem _)

theorem sorted_insertEntry (k : K) (v : V) {es : List (K × V)} (h : es.Pairwise fun e f => e.1 < f.1) :
    (insertEntry k v es).Pairwise fun e f => e.1 < f.1 := by
  induction es with
  | nil => exact List.pairwise_singleton _ _
  | cons e es ih =>
    obtain ⟨hhead, htail⟩ := List.pairwise_cons.mp h
    unfold insertEntry
    split
    · rename_i hk
      exact List.pairwise_cons.mpr ⟨hk ▸ hhead, htail⟩
    · rename_i hne
      split
      · rename_i hlt
        refine List.pairwise_cons.mpr ⟨fun f hf => ?_, h⟩
        rcases List.mem_cons.mp hf with rfl | hf
        · exact hlt
        · exact hlt.trans (hhead f hf)
      · rename_i hnlt
        refine List.pairwise_cons.mpr ⟨fun f hf => ?_, ih htail⟩
        rcases mem_insertEntry hf with rfl | hf
        · exact lt_of_le_of_ne (not_lt.mp hnlt) (Ne.symm hne)
        · exact hhead f hf

def empty : SortedMap K V := ⟨[], .nil⟩

def insert (m : SortedMap K V) (k : K) (v : V) : SortedMap K V := ⟨insertEntry k v m.entries, sorted_insertEntry k v m.sorted⟩

/-- The map of the pairs, inserted one after the other. -/
def collect (pairs : List (K × V)) : SortedMap K V := pairs.foldl (fun m e => m.insert e.1 e.2) empty

def keys (m : SortedMap K V) : List K := m.entries.map (·.1)

def get (m : SortedMap K V) (k : K) : Option V := (m.entries.find? fun e => e.1 = k).map (·.2)

def containsKey (m : SortedMap K V) (k : K) : Bool := (m.get k).isSome

/-! ## Keys and entries -/

theorem keys_sorted (m : SortedMap K V) : m.keys.Pairwise (· < ·) := List.pairwise_map.mpr m.sorted

theorem keys_nodup (m : SortedMap K V) : m.keys.Nodup := m.keys_sorted.imp ne_of_lt

theorem get_eq_some_iff (m : SortedMap K V) (k : K) (v : V) : m.get k = some v ↔ (k, v) ∈ m.entries := by
  unfold get
  constructor
  · intro h
    obtain ⟨e, he, rfl⟩ := Option.map_eq_some_iff.mp h
    have hk : e.1 = k := by simpa using List.find?_some he
    exact hk ▸ List.mem_of_find?_eq_some he
  · intro h
    cases hfind : m.entries.find? fun e => e.1 = k with
    | none => exact absurd (List.find?_eq_none.mp hfind _ h) (by simp)
    | some e =>
      have hk : e.1 = k := by simpa using List.find?_some hfind
      have heq : e = (k, v) := List.inj_on_of_nodup_map m.keys_nodup (List.mem_of_find?_eq_some hfind) h hk
      rw [heq]
      rfl

theorem mem_keys_iff (m : SortedMap K V) (k : K) : k ∈ m.keys ↔ ∃ v, m.get k = some v := by
  constructor
  · intro h
    obtain ⟨e, he, rfl⟩ := List.mem_map.mp h
    exact ⟨e.2, (m.get_eq_some_iff _ _).mpr he⟩
  · rintro ⟨v, hv⟩
    exact List.mem_map.mpr ⟨(k, v), (m.get_eq_some_iff k v).mp hv, rfl⟩

/-! ## Inserting -/

theorem find?_insertEntry (k k' : K) (v : V) (es : List (K × V)) :
    (insertEntry k v es).find? (fun e => e.1 = k') = if k' = k then some (k, v) else es.find? fun e => e.1 = k' := by
  induction es with
  | nil => simp [insertEntry, eq_comm]
  | cons e es ih =>
    unfold insertEntry
    split
    · rename_i hk
      by_cases hk' : k' = k
      · simp [hk']
      · simp [hk', Ne.symm hk', ← hk]
    · rename_i hne
      split
      · by_cases hk' : k' = k
        · simp [hk']
        · simp [hk', Ne.symm hk']
      · rw [List.find?_cons, ih]
        by_cases hk' : k' = k
        · subst hk'
          simp [Ne.symm hne]
        · simp [hk', List.find?_cons]

theorem get_insert (m : SortedMap K V) (k k' : K) (v : V) : (m.insert k v).get k' = if k' = k then some v else m.get k' := by
  unfold get insert
  rw [find?_insertEntry]
  split <;> rfl

/-- Of the pairs of a key, the last one stands. -/
theorem get_collect (pairs : List (K × V)) (k : K) :
    (collect pairs).get k = (pairs.reverse.find? fun e => e.1 = k).map (·.2) := by
  induction pairs using List.reverseRecOn with
  | nil => rfl
  | append_singleton pairs e ih =>
    have hcollect : collect (pairs ++ [e]) = (collect pairs).insert e.1 e.2 := by
      simp [collect, List.foldl_append]
    rw [hcollect, get_insert, ih, List.reverse_append, List.reverse_singleton, List.singleton_append, List.find?_cons]
    by_cases hk : k = e.1
    · simp [hk]
    · simp [hk, Ne.symm hk]

/-- Lists in increasing order with the same members are the same. -/
theorem eq_of_sorted {l l' : List K} (hl : l.Pairwise (· < ·)) (hl' : l'.Pairwise (· < ·)) (h : ∀ k, k ∈ l ↔ k ∈ l') :
    l = l' :=
  ((List.perm_ext_iff_of_nodup (hl.imp ne_of_lt) (hl'.imp ne_of_lt)).mpr h).eq_of_pairwise
    (fun _ _ _ _ hlt hgt => absurd hgt hlt.asymm) hl hl'

/-! ## Removing -/

def erase (m : SortedMap K V) (k : K) : SortedMap K V := ⟨m.entries.filter fun e => e.1 ≠ k, m.sorted.filter _⟩

theorem get_erase (m : SortedMap K V) (k k' : K) : (m.erase k).get k' = if k' = k then none else m.get k' := by
  apply Option.ext
  intro v
  rw [get_eq_some_iff, erase, List.mem_filter, ← get_eq_some_iff]
  by_cases hk : k' = k <;> simp [hk]

end SortedMap
