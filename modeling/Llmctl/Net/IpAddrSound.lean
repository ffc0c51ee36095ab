import Llmctl.Net.IpAddr

/-!
# Reading addresses

A text with a character that no address has is not one, and the text of an IPv4 address
reads back as that address.
-/

namespace Net

/-! ## What an address is not -/

/-- A reader that stops before `c`, or fails. -/
def Spares {α : Type} (c : Char) (read : List Char → Option (α × List Char)) : Prop :=
  ∀ s a rest, read s = some (a, rest) → c ∈ s → c ∈ rest

section
variable {c : Char}

theorem mem_drop_takeWhile {p : Char → Bool} (hc : p c = false) {s : List Char} (hmem : c ∈ s) :
    c ∈ s.drop (s.takeWhile p).length := by
  induction s with
  | nil => cases hmem
  | cons x s ih =>
    rw [List.takeWhile_cons]
    cases hp : p x with
    | false => exact hmem
    | true =>
      simp only [if_true, List.length_cons, List.drop_succ_cons]
      cases List.mem_cons.mp hmem with
      | inl h => rw [h, hp] at hc; cases hc
      | inr h => exact ih h

theorem spares_readNumber {radix maxDigits bound : Nat} {zeros : Bool} (hc : digit radix c = none) :
    Spares c (readNumber radix maxDigits bound zeros) := by
  intro s n rest h hmem
  simp only [readNumber] at h
  split at h
  · cases h
  · split at h
    · cases h
    · cases h
      exact mem_drop_takeWhile (by rw [hc]; rfl) hmem

theorem spares_readSeparated {α : Type} {sep : Char} (first : Bool) {read : List Char → Option (α × List Char)} (hsep : c ≠ sep)
    (hread : Spares c read) : Spares c (readSeparated sep first read) := by
  intro s a rest h hmem
  unfold readSeparated at h
  split at h
  · exact hread s a rest h hmem
  · split at h
    · split at h
      · rename_i heq
        refine hread _ a rest h ?_
        cases List.mem_cons.mp hmem with
        | inl hx => exact absurd (hx.trans heq) hsep
        | inr hx => exact hx
      · cases h
    · cases h

theorem spares_readIpv4 (hdot : c ≠ '.') (hc : digit 10 c = none) : Spares c readIpv4 := by
  have octet (first : Bool) : Spares c (readOctet first) := spares_readSeparated first hdot (spares_readNumber hc)
  intro s parts rest h hmem
  unfold readIpv4 at h
  obtain ⟨⟨a, s₁⟩, h₁, h⟩ := Option.bind_eq_some_iff.mp h
  obtain ⟨⟨b, s₂⟩, h₂, h⟩ := Option.bind_eq_some_iff.mp h
  obtain ⟨⟨d, s₃⟩, h₃, h⟩ := Option.bind_eq_some_iff.mp h
  obtain ⟨⟨e, s₄⟩, h₄, h⟩ := Option.bind_eq_some_iff.mp h
  cases h
  exact octet false _ _ _ h₄ (octet false _ _ _ h₃ (octet false _ _ _ h₂ (octet true _ _ _ h₁ hmem)))

theorem mem_readGroups (hdot : c ≠ '.') (hcolon : c ≠ ':') (h10 : digit 10 c = none) (h16 : digit 16 c = none) (n : Nat)
    (first : Bool) (s : List Char) (hmem : c ∈ s) : c ∈ (readGroups n first s).2.2 := by
  induction n generalizing first s with
  | zero => exact hmem
  | succ n ih =>
    unfold readGroups
    split
    · rename_i hi lo rest h
      split at h
      · exact spares_readSeparated first hcolon (spares_readIpv4 hdot h10) _ _ _ h hmem
      · cases h
    · split
      · rename_i g rest h
        exact ih false rest (spares_readSeparated first hcolon (spares_readNumber h16) _ _ _ h hmem)
      · exact hmem

theorem spares_readIpv6 (hdot : c ≠ '.') (hcolon : c ≠ ':') (h10 : digit 10 c = none) (h16 : digit 16 c = none) :
    Spares c readIpv6 := by
  have groups (n : Nat) (first : Bool) (s : List Char) := mem_readGroups hdot hcolon h10 h16 n first s
  intro s gs rest h hmem
  have hhead := groups 8 true s hmem
  unfold readIpv6 at h
  split at h
  rename_i head ipv4 s' hs'
  rw [hs'] at hhead
  split at h
  · cases h
    exact hhead
  · split at h
    · cases h
    · split at h
      · rename_i tail
        cases h
        refine groups _ true _ ?_
        simpa [hcolon] using hhead
      · cases h

end

/-- A character other than a dot, a colon and a hexadecimal digit is in no address. -/
theorem IpAddr.parse_eq_none {c : Char} (hdot : c ≠ '.') (hcolon : c ≠ ':') (h10 : digit 10 c = none) (h16 : digit 16 c = none)
    {s : List Char} (h : c ∈ s) : IpAddr.parse s = none := by
  unfold IpAddr.parse
  split
  · rename_i hi lo rest hread
    have hrest := spares_readIpv4 hdot h10 _ _ _ hread h
    refine if_neg ?_
    rw [List.isEmpty_iff]
    exact List.ne_nil_of_mem hrest
  · split
    · rename_i hread
      cases spares_readIpv6 hdot hcolon h10 h16 _ _ _ hread h
    · rfl

/-! ## The text of an IPv4 address -/

theorem repr_octet {n : Nat} (h : n < 256) :
    n.repr.toList.all (fun c => (digit 10 c).isSome) = true ∧
      ofDigits 10 (n.repr.toList.filterMap (digit 10)) = n ∧
      n.repr.toList ≠ [] ∧ n.repr.toList.length ≤ 3 ∧
      (n.repr.toList.head? = some '0' → n.repr.toList.length = 1) := by
  have hall : ∀ n : Fin 256, (n : Nat).repr.toList.all (fun c => (digit 10 c).isSome) = true ∧
      ofDigits 10 ((n : Nat).repr.toList.filterMap (digit 10)) = n ∧
      (n : Nat).repr.toList ≠ [] ∧ (n : Nat).repr.toList.length ≤ 3 ∧
      ((n : Nat).repr.toList.head? = some '0' → (n : Nat).repr.toList.length = 1) := by
    decide +kernel
  exact hall ⟨n, h⟩

/-- What is not a digit ends a number. -/
theorem readNumber_repr {n : Nat} (h : n < 256) {rest : List Char} (hrest : ∀ c ∈ rest.head?, digit 10 c = none) :
    readNumber 10 3 256 false (n.repr.toList ++ rest) = some (n, rest) := by
  obtain ⟨hdigits, hvalue, hne, hlength, hzero⟩ := repr_octet h
  have htake : (n.repr.toList ++ rest).takeWhile (fun c => (digit 10 c).isSome) = n.repr.toList := by
    rw [List.takeWhile_append_of_pos (List.all_eq_true.mp hdigits)]
    cases rest with
    | nil => simp
    | cons c rest =>
      have hc : digit 10 c = none := hrest c rfl
      simp [hc]
  have hempty : n.repr.toList.isEmpty = false := List.isEmpty_eq_false_iff.mpr hne
  have hlong : ¬ 3 < n.repr.toList.length := by omega
  have hlarge : ¬ 256 ≤ n := by omega
  unfold readNumber
  simp only [htake, hvalue, hempty, hlong, hlarge]
  rw [if_neg (by simp), if_neg]
  · simp
  · intro hbad
    simp only [Bool.not_false, Bool.true_and, Bool.and_eq_true, beq_iff_eq, decide_eq_true_eq] at hbad
    have hone := hzero hbad.1
    omega

theorem readIpv4_text {a b c d : Nat} (ha : a < 256) (hb : b < 256) (hc : c < 256) (hd : d < 256) :
    readIpv4 (a.repr.toList ++ '.' :: (b.repr.toList ++ '.' :: (c.repr.toList ++ '.' :: d.repr.toList))) =
      some ((256 * a + b, 256 * c + d), []) := by
  have first (rest : List Char) : readOctet true (a.repr.toList ++ '.' :: rest) = some (a, '.' :: rest) := by
    refine readNumber_repr ha ?_
    intro x hx
    cases hx
    decide
  have next {n : Nat} (hn : n < 256) (rest : List Char) (hrest : ∀ x ∈ rest.head?, digit 10 x = none) :
      readOctet false ('.' :: (n.repr.toList ++ rest)) = some (n, rest) := readNumber_repr hn hrest
  have dot (rest : List Char) : ∀ x ∈ ('.' :: rest).head?, digit 10 x = none := by
    intro x hx
    cases hx
    decide
  have last : readOctet false ('.' :: d.repr.toList) = some (d, []) := by
    have hlast := next hd [] (by simp)
    rwa [List.append_nil] at hlast
  unfold readIpv4
  rw [first, Option.bind_eq_bind, Option.bind_some]
  dsimp only
  rw [next hb _ (dot _), Option.bind_some]
  dsimp only
  rw [next hc _ (dot _), Option.bind_some]
  dsimp only
  rw [last]
  rfl

theorem IpAddr.ipv4Text_toList (bits : BitVec 32) :
    (ipv4Text bits).toList = (bits.toNat / 2 ^ 24).repr.toList ++ '.' :: ((bits.toNat / 2 ^ 16 % 256).repr.toList ++
      '.' :: ((bits.toNat / 2 ^ 8 % 256).repr.toList ++ '.' :: (bits.toNat % 256).repr.toList)) := by
  have hfour (a b c d : String) : (".".intercalate [a, b, c, d]).toList = a.toList ++ '.' :: (b.toList ++ '.' :: (c.toList ++
      '.' :: d.toList)) := by
    rw [String.toList_intercalate]
    simp [List.intercalate]
  unfold ipv4Text
  simp only [List.map_cons, List.map_nil]
  rw [hfour]

theorem IpAddr.parse_ipv4Text (bits : BitVec 32) : IpAddr.parse (ipv4Text bits).toList = some (.v4 bits) := by
  have hlt : bits.toNat < 2 ^ 32 := bits.isLt
  rw [ipv4Text_toList]
  unfold IpAddr.parse
  rw [readIpv4_text (by omega) (by omega) (by omega) (by omega)]
  simp only [List.isEmpty_nil, if_true, Option.some.injEq, IpAddr.v4.injEq]
  apply BitVec.eq_of_toNat_eq
  rw [BitVec.toNat_ofNat]
  omega

/-- The text of an IPv4 address starts with a digit. -/
theorem IpAddr.ipv4Text_head (bits : BitVec 32) : ∃ c rest, (ipv4Text bits).toList = c :: rest ∧ (digit 10 c).isSome := by
  have hlt : bits.toNat < 2 ^ 32 := bits.isLt
  obtain ⟨hdigits, -, hne, -, -⟩ := @repr_octet (bits.toNat / 2 ^ 24) (by omega)
  rw [ipv4Text_toList]
  cases hfirst : (bits.toNat / 2 ^ 24).repr.toList with
  | nil => exact absurd hfirst hne
  | cons c rest =>
    rw [hfirst] at hdigits
    exact ⟨c, _, rfl, List.all_eq_true.mp hdigits c List.mem_cons_self⟩

end Net
