import Mathlib.Algebra.Ring.Nat
import Mathlib.Data.List.Basic

/-!
# Internet addresses

`std::net::IpAddr`: how an address is read, written and brought into canonical form.
-/

namespace Net

inductive IpAddr where
  | v4 (bits : BitVec 32)
  | v6 (bits : BitVec 128)
  deriving DecidableEq, Repr

/-! ## Reading -/

def digit (radix : Nat) (c : Char) : Option Nat :=
  let n := c.toNat
  let d :=
    if 48 ≤ n && n ≤ 57 then n - 48
    else if 97 ≤ n && n ≤ 102 then n - 87
    else if 65 ≤ n && n ≤ 70 then n - 55
    else radix
  if d < radix then some d else none

def ofDigits (radix : Nat) (ds : List Nat) : Nat := ds.foldl (fun n d => radix * n + d) 0

/-- All the digits that come next: too many, or a number of `bound` or more, are none. -/
def readNumber (radix maxDigits bound : Nat) (allowZeroPrefix : Bool) (s : List Char) : Option (Nat × List Char) :=
  let digits := s.takeWhile fun c => (digit radix c).isSome
  let n := ofDigits radix (digits.filterMap (digit radix))
  if digits.isEmpty || maxDigits < digits.length || bound ≤ n then none
  else if !allowZeroPrefix && digits.head? == some '0' && 1 < digits.length then none
  else some (n, s.drop digits.length)

def readSeparated {α : Type} (sep : Char) (first : Bool) (read : List Char → Option (α × List Char)) (s : List Char) :
    Option (α × List Char) :=
  if first then read s
  else
    match s with
    | c :: s => if c = sep then read s else none
    | [] => none

def readOctet (first : Bool) (s : List Char) : Option (Nat × List Char) :=
  readSeparated '.' first (readNumber 10 3 256 false) s

/-- The two halves of an IPv4 address. -/
def readIpv4 (s : List Char) : Option ((Nat × Nat) × List Char) := do
  let (a, s) ← readOctet true s
  let (b, s) ← readOctet false s
  let (c, s) ← readOctet false s
  let (d, s) ← readOctet false s
  pure ((256 * a + b, 256 * c + d), s)

/-- Up to `n` groups of an IPv6 address, and whether they end with an IPv4 address. -/
def readGroups : Nat → Bool → List Char → List Nat × Bool × List Char
  | 0, _, s => ([], false, s)
  | n + 1, first, s =>
    match if 0 < n then readSeparated ':' first readIpv4 s else none with
    | some ((hi, lo), s) => ([hi, lo], true, s)
    | none =>
      match readSeparated ':' first (readNumber 16 4 65536 true) s with
      | some (g, s) =>
        let (gs, ipv4, s) := readGroups n false s
        (g :: gs, ipv4, s)
      | none => ([], false, s)

def readIpv6 (s : List Char) : Option (List Nat × List Char) :=
  match readGroups 8 true s with
  | (head, ipv4, s) =>
    if head.length = 8 then some (head, s)
    else if ipv4 then none
    else
      match s with
      | ':' :: ':' :: s =>
        -- `::` stands for one group of zeros at least
        let (tail, _, s) := readGroups (8 - (head.length + 1)) true s
        some (head ++ List.replicate (8 - head.length - tail.length) 0 ++ tail, s)
      | _ => none

namespace IpAddr

def parse (s : List Char) : Option IpAddr :=
  match readIpv4 s with
  | some ((hi, lo), rest) => if rest.isEmpty then some (.v4 (BitVec.ofNat 32 (65536 * hi + lo))) else none
  | none =>
    match readIpv6 s with
    | some (groups, []) => some (.v6 (BitVec.ofNat 128 (ofDigits 65536 groups)))
    | _ => none

/-! ## Canonical form -/

/-- An IPv4 address that is written as an IPv6 address. -/
def ipv4Mapped (bits : BitVec 128) : Option (BitVec 32) :=
  if bits.toNat / 2 ^ 32 = 0xffff then some (BitVec.ofNat 32 bits.toNat) else none

def toCanonical : IpAddr → IpAddr
  | .v4 bits => .v4 bits
  | .v6 bits =>
    match ipv4Mapped bits with
    | some bits => .v4 bits
    | none => .v6 bits

/-! ## Writing -/

def ipv4Text (bits : BitVec 32) : String :=
  let n := bits.toNat
  ".".intercalate ([n / 2 ^ 24, n / 2 ^ 16 % 256, n / 2 ^ 8 % 256, n % 256].map Nat.repr)

def segments (bits : BitVec 128) : List Nat :=
  [112, 96, 80, 64, 48, 32, 16, 0].map fun shift => bits.toNat / 2 ^ shift % 65536

def hex (n : Nat) : String := String.ofList (Nat.toDigits 16 n)

def colons (segments : List Nat) : String := ":".intercalate (segments.map hex)

/-- Where the longest run of zeros starts and how long it is; the first of the longest. -/
def longestZeros : Nat → Nat × Nat → Nat × Nat → List Nat → Nat × Nat
  | _, _, longest, [] => longest
  | i, current, longest, s :: rest =>
    if s = 0 then
      let current := if current.2 = 0 then (i, 1) else (current.1, current.2 + 1)
      longestZeros (i + 1) current (if longest.2 < current.2 then current else longest) rest
    else longestZeros (i + 1) (0, 0) longest rest

def ipv6Text (bits : BitVec 128) : String :=
  match ipv4Mapped bits with
  | some bits => "::ffff:" ++ ipv4Text bits
  | none =>
    let segments := segments bits
    let (start, len) := longestZeros 0 (0, 0) (0, 0) segments
    if 1 < len then colons (segments.take start) ++ "::" ++ colons (segments.drop (start + len))
    else colons segments

def text : IpAddr → String
  | .v4 bits => ipv4Text bits
  | .v6 bits => ipv6Text bits

end IpAddr

end Net
