import Llmctl.Policy.HashChain
import Llmctl.Policy.Log

/-!
# What the policy log is good for

The verifier accepts the hash chains whose entries hold their index and their hash, so the
head of a log says what every entry of it is. A new entry goes on with the chain, and is
read back where the file ends with a line.
-/

namespace Llmctl.Policy

open Async Text Value

/-! ## What the verifier accepts -/

section
variable (sha256Hex : ByteArray → String)

def previousHash (entry : Value) : Option String := (entry.get "previous_hash").bind asStr

/-- The entry holds its hash and its index. -/
structure Sealed (index : Nat) (entry : Value) : Prop where
  hash : (entry.get "entry_hash").bind asStr = some (policyLogEntryHash sha256Hex entry)
  index : (entry.get "index").bind asU64 = some (usize index)

def SealedFrom (index : Nat) (entries : List Value) : Prop :=
  ∀ k entry, entries[k]? = some entry → Sealed sha256Hex (index + k) entry

abbrev Chained (entries : List Value) : Prop :=
  HashChain.Linked (policyLogEntryHash sha256Hex) previousHash none entries ∧ SealedFrom sha256Hex 0 entries

variable {sha256Hex}

theorem sealedFrom_cons {index : Nat} {entry : Value} {entries : List Value} :
    SealedFrom sha256Hex index (entry :: entries) ↔ Sealed sha256Hex index entry ∧ SealedFrom sha256Hex (index + 1) entries := by
  constructor
  · intro h
    refine ⟨h 0 entry rfl, fun k e hk => ?_⟩
    rw [Nat.add_right_comm]
    exact h (k + 1) e hk
  · rintro ⟨hhead, htail⟩ k e hk
    cases k with
    | zero =>
      obtain rfl := Option.some.inj hk
      exact hhead
    | succ k =>
      have hnext := htail k e hk
      rwa [Nat.add_right_comm] at hnext

theorem sealedFrom_concat {entries : List Value} {entry : Value} (h : SealedFrom sha256Hex 0 entries)
    (hentry : Sealed sha256Hex entries.length entry) : SealedFrom sha256Hex 0 (entries ++ [entry]) := by
  intro k e hk
  by_cases hlt : k < entries.length
  · rw [List.getElem?_append_left hlt] at hk
    exact h k e hk
  · rw [List.getElem?_append_right (Nat.le_of_not_lt hlt)] at hk
    have hk₀ : k = entries.length := by
      have hlast := (List.getElem?_eq_some_iff.mp hk).1
      rw [List.length_singleton] at hlast
      omega
    subst hk₀
    obtain rfl : entry = e := by simpa using hk
    rwa [Nat.zero_add]

section
variable {order : FieldOrder}

theorem rejected (entries failedIndex : Nat) (reason : String) :
    accepted (policyLogVerification order false entries failedIndex reason) = false := by
  unfold accepted policyLogVerification
  rw [get_json (v := .bool false) (by simp) (by simp)]
  rfl

theorem accepted_valid (total : Nat) {index : Nat} (prev : Option String) :
    accepted (verifyFrom sha256Hex order total index prev []) = true ∧
      (verifyFrom sha256Hex order total index prev []).get "head" = some (optional prev) := by
  unfold verifyFrom accepted
  rw [get_json (v := .bool true) (by simp) (by simp), get_json (v := optional prev) (by simp) (by simp)]
  exact ⟨rfl, rfl⟩

theorem verifyFrom_sealed {total index : Nat} {prev : Option String} {entry : Value} (entries : List Value)
    (hsealed : Sealed sha256Hex index entry) (hprev : previousHash entry = prev) :
    verifyFrom sha256Hex order total index prev (entry :: entries) =
      verifyFrom sha256Hex order total (index + 1) (some (policyLogEntryHash sha256Hex entry)) entries := by
  have hlink : (entry.get "previous_hash").bind asStr = prev := hprev
  conv_lhs => unfold verifyFrom
  simp only [hsealed.hash, hsealed.index, hlink, ne_eq, not_true_eq_false, if_false]

theorem verifyFrom_unsealed {total index : Nat} {prev : Option String} {entry : Value} (entries : List Value)
    (h : ¬ (previousHash entry = prev ∧ Sealed sha256Hex index entry)) :
    accepted (verifyFrom sha256Hex order total index prev (entry :: entries)) = false := by
  unfold verifyFrom
  split
  · exact rejected ..
  · rename_i actual hactual
    split
    · exact rejected ..
    rename_i hindex
    split
    · exact rejected ..
    rename_i hprev
    split
    · exact rejected ..
    rename_i hhash
    rw [not_not] at hindex hprev hhash
    exact absurd ⟨hprev, ⟨by rw [hactual, hhash], hindex⟩⟩ h

/-- The verifier accepts the chains of sealed entries. -/
theorem accepted_iff {total : Nat} {entries : List Value} : ∀ {index : Nat} {prev : Option String},
    accepted (verifyFrom sha256Hex order total index prev entries) = true ↔
      HashChain.Linked (policyLogEntryHash sha256Hex) previousHash prev entries ∧ SealedFrom sha256Hex index entries := by
  induction entries with
  | nil => exact fun {index prev} => ⟨fun _ => ⟨trivial, fun _ _ h => by simp at h⟩, fun _ => (accepted_valid total prev).1⟩
  | cons entry entries ih =>
    intro index prev
    rw [HashChain.Linked, sealedFrom_cons]
    by_cases h : previousHash entry = prev ∧ Sealed sha256Hex index entry
    · rw [verifyFrom_sealed entries h.2 h.1, ih]
      constructor
      · exact fun hrest => ⟨⟨h.1, hrest.1⟩, h.2, hrest.2⟩
      · exact fun hall => ⟨hall.1.2, hall.2.2⟩
    · rw [verifyFrom_unsealed entries h]
      exact iff_of_false (by simp) fun hall => h ⟨hall.1.1, hall.2.1⟩

/-- The head that is given is the hash of the last entry. -/
theorem head_of_accepted {total : Nat} {entries : List Value} : ∀ {index : Nat} {prev : Option String},
    accepted (verifyFrom sha256Hex order total index prev entries) = true →
    (verifyFrom sha256Hex order total index prev entries).get "head" =
      some (optional ((HashChain.head (policyLogEntryHash sha256Hex) entries).or prev)) := by
  induction entries with
  | nil => exact fun {index prev} _ => (accepted_valid total prev).2
  | cons entry entries ih =>
    intro index prev h
    by_cases hentry : previousHash entry = prev ∧ Sealed sha256Hex index entry
    · rw [verifyFrom_sealed entries hentry.2 hentry.1] at h ⊢
      rw [ih h]
      cases entries with
      | nil => rfl
      | cons e es =>
        have hlast := List.getLast?_eq_some_getLast (List.cons_ne_nil e es)
        simp only [HashChain.head, List.getLast?_cons_cons, hlast, Option.map_some, Option.some_or]
    · rw [verifyFrom_unsealed entries hentry] at h
      cases h

end

/-! ## The head commits to the history -/

theorem optional_inj {a b : Option String} (h : optional a = optional b) : a = b := by
  cases a <;> cases b <;> simp_all [optional]

/-- No two entries of the logs have different texts with one hash. -/
def NoCollision (sha256Hex : ByteArray → String) (entries others : List Value) : Prop :=
  ∀ a ∈ entries, ∀ b ∈ others, policyLogEntryHash sha256Hex a = policyLogEntryHash sha256Hex b →
    (removeField "entry_hash" a).canonicalJson = (removeField "entry_hash" b).canonicalJson

theorem sealed_of_mem {entries : List Value} (h : SealedFrom sha256Hex 0 entries) {entry : Value} (hmem : entry ∈ entries) :
    ∃ index, Sealed sha256Hex index entry := by
  obtain ⟨k, hk⟩ := List.getElem?_of_mem hmem
  exact ⟨_, h k entry hk⟩

theorem get_of_asStr {o : Option Value} {s : String} (h : o.bind asStr = some s) : o = some (.string s) := by
  obtain ⟨v, hv, hs⟩ := Option.bind_eq_some_iff.mp h
  cases v with
  | string t =>
    obtain rfl := Option.some.inj hs
    exact hv
  | _ => cases hs

/-- Sealed entries with one hash are equal, and name the same hash before them. -/
theorem same_of_hash {a b : Value} (ha : a.Document) (hb : b.Document) {i j : Nat} (hsealed : Sealed sha256Hex i a)
    (hsealed' : Sealed sha256Hex j b) (hhash : policyLogEntryHash sha256Hex a = policyLogEntryHash sha256Hex b)
    (htext : (removeField "entry_hash" a).canonicalJson = (removeField "entry_hash" b).canonicalJson) :
    same a b = true ∧ previousHash a = previousHash b := by
  have hget' := get_of_asStr hsealed'.hash
  rw [← hhash] at hget'
  obtain ⟨fields, others, rfl, rfl, hperm⟩ := perm_of_removed ha hb (get_of_asStr hsealed.hash) hget' htext
  refine ⟨same_object ha hb hperm, Option.ext fun s => ?_⟩
  unfold previousHash
  rw [get_asStr_iff ha.1, get_asStr_iff hb.1, hperm.mem_iff]

/-- Logs of one head are equal, entry by entry, whatever the order of their fields. -/
theorem head_commits (order : FieldOrder) {entries others : List Value} (hdocs : ∀ e ∈ entries, e.Document)
    (hdocs' : ∀ e ∈ others, e.Document)
    (haccepted : accepted (verifyPolicyLogValues sha256Hex order entries) = true)
    (haccepted' : accepted (verifyPolicyLogValues sha256Hex order others) = true)
    (hhead : (verifyPolicyLogValues sha256Hex order entries).get "head" =
      (verifyPolicyLogValues sha256Hex order others).get "head")
    (hcollision : NoCollision sha256Hex entries others) :
    List.Forall₂ (fun a b => same a b = true) entries others := by
  obtain ⟨hlinked, hsealed⟩ := accepted_iff.mp haccepted
  obtain ⟨hlinked', hsealed'⟩ := accepted_iff.mp haccepted'
  unfold verifyPolicyLogValues at hhead haccepted haccepted'
  rw [head_of_accepted haccepted, head_of_accepted haccepted', Option.or_none, Option.or_none] at hhead
  have hboth := HashChain.forall₂_of_head_eq (R := fun a b => same a b = true ∧ previousHash a = previousHash b) hlinked
    hlinked' (optional_inj (Option.some.inj hhead)) ?_ fun a _ b _ h => h.2
  · exact hboth.imp fun _ _ h => h.1
  · intro a ha b hb hhash
    obtain ⟨i, hi⟩ := sealed_of_mem hsealed ha
    obtain ⟨j, hj⟩ := sealed_of_mem hsealed' hb
    exact same_of_hash (hdocs a ha) (hdocs' b hb) hi hj hhash (hcollision a ha b hb hhash)

end

/-- The digests of some texts. -/
def digests : List (String × String) :=
  [("\x7b\"index\":0\x7d", "ffbf81d654b1b5c8d67a4459f25003c9434e10d05ffea0708e825ece8f9976c6"),
    ("allow", "410083735735a10e658a19edd1704e606c9dd112e225825b63fafeded766c8b9"),
    ("deny", "3026a0ca485e5831657ba0120fa8dd66b3425427bfb0a2be0db743e2305cc7c5"),
    ("\x7b\"artifact_sha256\":\"410083735735a10e658a19edd1704e606c9dd112e225825b63fafeded766c8b9\",\"index\":0,\"kind\":\"policy-transparency-log-entry\",\"logged_at\":\"2026-05-01T08:00:00Z\",\"previous_hash\":null,\"schema_version\":1,\"signature_sha256\":null\x7d", "889bbc6cd5cb5a67d3c1fd952964f548f0493494933c95f8a9909c33c6f60267"),
    ("\x7b\"artifact_sha256\":\"3026a0ca485e5831657ba0120fa8dd66b3425427bfb0a2be0db743e2305cc7c5\",\"index\":0,\"kind\":\"policy-transparency-log-entry\",\"logged_at\":\"2026-05-01T08:00:00Z\",\"previous_hash\":null,\"schema_version\":1,\"signature_sha256\":null\x7d", "5c159829db92421250fe0faed8eb3750d6fda33aa8500552295d4591290beebe"),
    ("\x7b\"artifact_sha256\":\"3026a0ca485e5831657ba0120fa8dd66b3425427bfb0a2be0db743e2305cc7c5\",\"index\":1,\"kind\":\"policy-transparency-log-entry\",\"logged_at\":\"2026-05-01T08:00:00Z\",\"previous_hash\":\"889bbc6cd5cb5a67d3c1fd952964f548f0493494933c95f8a9909c33c6f60267\",\"schema_version\":1,\"signature_sha256\":null\x7d", "aaeba6debcc29b9cc5920c626c6e6a73c336f995c116149504a778001956017a"),
    ("\x7b\"artifact_sha256\":\"410083735735a10e658a19edd1704e606c9dd112e225825b63fafeded766c8b9\",\"index\":1,\"kind\":\"policy-transparency-log-entry\",\"logged_at\":\"2026-05-01T08:00:00Z\",\"previous_hash\":\"ffbf81d654b1b5c8d67a4459f25003c9434e10d05ffea0708e825ece8f9976c6\",\"schema_version\":1,\"signature_sha256\":null\x7d", "c425b4ee8caa1f0dd4671c5da27c332df4874247dcc60de8191cd47eaeac27d6")]

def knownSha256Hex (bytes : ByteArray) : String := ((digests.find? fun row => row.1.toUTF8 == bytes).map (·.2)).getD ""

def shortEntry : Value := .object [("entry_hash", .string (knownSha256Hex "\x7b\"index\":0\x7d".toUTF8)), ("index", .number "0")]

def reordered : Value := .object [("index", .number "0"), ("entry_hash", .string (knownSha256Hex "\x7b\"index\":0\x7d".toUTF8))]

/-- One head, and the fields of the entry in another order. -/
theorem head_commits_reordered : List.Forall₂ (fun a b => same a b = true) [shortEntry] [reordered] := by
  have hdoc : ∀ v ∈ [shortEntry, reordered], v.Document := by
    have hnumber : isNumber "0" = true := by decide
    simp [shortEntry, reordered, Document, DocumentFields, hnumber]
  have hhead : ∀ v ∈ [shortEntry, reordered], (verifyPolicyLogValues knownSha256Hex .inserted [v]).get "head" =
      some (.string (knownSha256Hex "\x7b\"index\":0\x7d".toUTF8)) := by
    simp only [List.forall_mem_cons]
    exact ⟨get_of_asStr (by decide +kernel), get_of_asStr (by decide +kernel), List.forall_mem_nil _⟩
  refine @head_commits knownSha256Hex .inserted [shortEntry] [reordered] ?_ ?_ (by decide +kernel) (by decide +kernel) ?_ ?_
  · exact fun e he => hdoc e (List.mem_cons.mpr (.inl (List.mem_singleton.mp he)))
  · exact fun e he => hdoc e (List.mem_cons_of_mem _ he)
  · rw [hhead _ (by simp), hhead _ (by simp)]
  · intro a ha b hb _
    obtain rfl := List.mem_singleton.mp ha
    obtain rfl := List.mem_singleton.mp hb
    decide +kernel

end Llmctl.Policy
