import Nightfall.Library.Text

/-!
# Texts of IP addresses

The standard parsers of the two families, which read a whole text as the bytes of an
address.
-/

namespace IpText

open Utf8 (Text)

/-- The digit of a character in a radix up to sixteen. -/
def toDigit (radix : Nat) (char : UInt8) : Option Nat :=
  let code := char.toNat
  let value :=
    if 48 ≤ code ∧ code ≤ 57 then some (code - 48)
    else if 97 ≤ code ∧ code ≤ 102 then some (code - 87)
    else if 65 ≤ code ∧ code ≤ 70 then some (code - 55)
    else none
  value.filter (· < radix)

/-- A number of limited length below a bound, and what comes after it. -/
def readNumber (radix maxDigits bound : Nat) (zeroPrefix : Bool) (text : Text) :
    Option (Nat × Text) :=
  let digits := text.takeWhile fun char => (toDigit radix char).isSome
  let value := digits.foldl (fun total char => total * radix + (toDigit radix char).getD 0) 0
  if digits = [] ∨ digits.length > maxDigits ∨ value ≥ bound then none
  else if !zeroPrefix ∧ text.head? = some 48 ∧ digits.length > 1 then none
  else some (value, text.drop digits.length)

/-- Every element but the first has a separator in front. -/
def readSeparator {α : Type} (separator : UInt8) (index : Nat)
    (read : Text → Option (α × Text)) (text : Text) : Option (α × Text) :=
  if index = 0 then read text
  else if text.head? = some separator then read text.tail
  else none

/-- Read `count` numbers between points. -/
def readOctets : Nat → Nat → Text → Option (List Nat × Text)
  | 0, _, text => some ([], text)
  | count + 1, index, text => do
      let octet ← readSeparator 46 index (readNumber 10 3 256 false) text
      let rest ← readOctets count (index + 1) octet.2
      some (octet.1 :: rest.1, rest.2)

def readIpv4 (text : Text) : Option (List Nat × Text) :=
  readOctets 4 0 text

structure Groups where
  groups : List Nat
  /-- The last two groups were written as a version 4 address. -/
  embedded : Bool
  rest : Text

/-- Read up to `limit` groups between colons. -/
def readGroups : Nat → Nat → Text → Groups
  | 0, _, text => ⟨[], false, text⟩
  | limit + 1, index, text =>
      -- An embedded address takes two groups.
      let embedded := if limit ≥ 1 then readSeparator 58 index readIpv4 text else none
      match embedded with
      | some (octets, rest) =>
          ⟨[octets.getD 0 0 * 256 + octets.getD 1 0, octets.getD 2 0 * 256 + octets.getD 3 0],
            true, rest⟩
      | none =>
          match readSeparator 58 index (readNumber 16 4 65536 true) text with
          | some (group, rest) =>
              let more := readGroups limit (index + 1) rest
              ⟨group :: more.groups, more.embedded, more.rest⟩
          | none => ⟨[], false, text⟩

/-- Read eight groups, or fewer around `::`. -/
def readIpv6 (text : Text) : Option (List Nat × Text) :=
  let front := readGroups 8 0 text
  if front.groups.length = 8 then some (front.groups, front.rest)
  else if front.embedded then none
  else if [58, 58].isPrefixOf front.rest then
    let back := readGroups (8 - (front.groups.length + 1)) 0 (front.rest.drop 2)
    let zeros := List.replicate (8 - front.groups.length - back.groups.length) 0
    some (front.groups ++ zeros ++ back.groups, back.rest)
  else none

/-- The four bytes that a text names. -/
def parseIpv4 (text : Text) : Option (List UInt8) :=
  ((readIpv4 text).filter (·.2 = [])).map fun read => read.1.map UInt8.ofNat

/-- The sixteen bytes that a text names. -/
def parseIpv6 (text : Text) : Option (List UInt8) :=
  ((readIpv6 text).filter (·.2 = [])).map fun read =>
    read.1.flatMap fun group => [UInt8.ofNat (group / 256), UInt8.ofNat group]

/-! ## Lengths -/

theorem readOctets_length {count index : Nat} {text : Text} {read : List Nat × Text}
    (found : readOctets count index text = some read) : read.1.length = count := by
  induction count generalizing index text read with
  | zero =>
      cases found
      rfl
  | succ count ih =>
      simp only [readOctets, Option.bind_eq_bind, Option.bind_eq_some_iff,
        Option.some.injEq] at found
      obtain ⟨octet, _, rest, more, rfl⟩ := found
      exact congrArg Nat.succ (ih more)

theorem readGroups_length_le (limit index : Nat) (text : Text) :
    (readGroups limit index text).groups.length ≤ limit := by
  induction limit generalizing index text with
  | zero => exact le_rfl
  | succ limit ih =>
      simp only [readGroups]
      split
      next octets rest found =>
          split at found
          next several => exact Nat.succ_le_succ several
          next => cases found
      next =>
          split
          next group rest _ => exact Nat.succ_le_succ (ih (index + 1) rest)
          next => exact Nat.zero_le _

theorem readIpv6_length {text : Text} {read : List Nat × Text}
    (found : readIpv6 text = some read) : read.1.length = 8 := by
  simp only [readIpv6] at found
  split at found
  next full =>
      cases found
      exact full
  next short =>
      split at found
      · cases found
      · split at found
        · cases found
          have front := readGroups_length_le 8 0 text
          have back := readGroups_length_le (8 - ((readGroups 8 0 text).groups.length + 1)) 0
            ((readGroups 8 0 text).rest.drop 2)
          simp only [List.length_append, List.length_replicate]
          omega
        · cases found

theorem parseIpv4_length {text : Text} {octets : List UInt8}
    (found : parseIpv4 text = some octets) : octets.length = 4 := by
  rw [parseIpv4, Option.map_eq_some_iff] at found
  obtain ⟨read, whole, rfl⟩ := found
  rw [List.length_map]
  exact readOctets_length (Option.filter_eq_some_iff.mp whole).1

theorem parseIpv6_length {text : Text} {octets : List UInt8}
    (found : parseIpv6 text = some octets) : octets.length = 16 := by
  rw [parseIpv6, Option.map_eq_some_iff] at found
  obtain ⟨read, whole, rfl⟩ := found
  have groups := readIpv6_length (Option.filter_eq_some_iff.mp whole).1
  rw [List.length_flatMap]
  simp [groups]

end IpText
