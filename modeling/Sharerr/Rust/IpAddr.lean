import Mathlib.Data.List.Basic

/-!
# `std::net::IpAddr`

Addresses and the parser of the standard library: dotted decimals without
leading zeros, and groups of up to four hexadecimal digits with one `::` and
an IPv4 address at the end.
-/

namespace Rust

inductive IpAddr where
  | v4 (bits : BitVec 32)
  | v6 (bits : BitVec 128)
deriving DecidableEq, Repr

namespace IpAddr

/-- `char::to_digit`. -/
def toDigit (radix : Nat) (character : Char) : Option Nat :=
  let value :=
    if '0' ≤ character ∧ character ≤ '9' then
      character.toNat - '0'.toNat
    else if 'a' ≤ character ∧ character ≤ 'z' then
      character.toNat - 'a'.toNat + 10
    else if 'A' ≤ character ∧ character ≤ 'Z' then
      character.toNat - 'A'.toNat + 10
    else radix
  if value < radix then some value else none

/-- `read_number`: digits up to the first other character. -/
def readNumber (radix maxDigits bound : Nat) (zeros : Bool)
    (text : List Char) : Option (Nat × List Char) :=
  let digits := text.takeWhile fun character =>
    (toDigit radix character).isSome
  let value := (digits.filterMap (toDigit radix)).foldl
    (fun value digit => value * radix + digit) 0
  if digits.length = 0 ∨ digits.length > maxDigits then none
  else if ¬ zeros ∧ digits.head? = some '0' ∧ digits.length > 1 then none
  else if value ≥ bound then none
  else some (value, text.drop digits.length)

/-- `read_separator`: a separator stands before every entry but the first. -/
def readSeparated {α : Type} (separator : Char) (index : Nat)
    (inner : List Char → Option (α × List Char)) (text : List Char) :
    Option (α × List Char) :=
  if index = 0 then inner text
  else
    match text with
    | [] => none
    | character :: rest => if character = separator then inner rest else none

def readOctet (index : Nat) : List Char → Option (Nat × List Char) :=
  readSeparated '.' index (readNumber 10 3 256 false)

def readIpv4 (text : List Char) : Option (Nat × List Char) := do
  let (first, text) ← readOctet 0 text
  let (second, text) ← readOctet 1 text
  let (third, text) ← readOctet 2 text
  let (fourth, text) ← readOctet 3 text
  return (((first * 256 + second) * 256 + third) * 256 + fourth, text)

/-- `read_groups`: the groups, and whether an IPv4 address ended them. -/
def readGroups : (left index : Nat) → List Char → List Nat × Bool × List Char
  | 0, _, text => ([], false, text)
  | left + 1, index, text =>
    let embedded :=
      if left = 0 then none else readSeparated ':' index readIpv4 text
    match embedded with
    | some (address, rest) =>
      ([address / 65536, address % 65536], true, rest)
    | none =>
      match readSeparated ':' index (readNumber 16 4 65536 true) text with
      | none => ([], false, text)
      | some (group, rest) =>
        let (groups, ended, rest) := readGroups left (index + 1) rest
        (group :: groups, ended, rest)

def ofGroups (groups : List Nat) : BitVec 128 :=
  BitVec.ofNat 128
    (groups.foldl (fun address group => address * 65536 + group) 0)

/-- Up to eight groups, of which `::` leaves out some. -/
def readIpv6 (text : List Char) : Option (BitVec 128 × List Char) :=
  let (head, ended, rest) := readGroups 8 0 text
  if head.length = 8 then some (ofGroups head, rest)
  else if ended then none
  else
    match rest with
    | ':' :: ':' :: rest =>
      let (tail, _, rest) := readGroups (7 - head.length) 0 rest
      let zeros := List.replicate (8 - head.length - tail.length) 0
      some (ofGroups (head ++ zeros ++ tail), rest)
    | _ => none

/-- `str::parse::<IpAddr>`. -/
def parse (text : String) : Option IpAddr :=
  match readIpv4 text.toList with
  | some (address, rest) =>
    if rest.isEmpty then some (.v4 (BitVec.ofNat 32 address)) else none
  | none =>
    match readIpv6 text.toList with
    | some (address, []) => some (.v6 address)
    | _ => none

/-- `to_canonical`: an IPv4-mapped IPv6 address as IPv4. -/
def toCanonical : IpAddr → IpAddr
  | v4 bits => v4 bits
  | v6 bits =>
    if bits >>> 32 = 0xFFFF#128 then v4 (bits.truncate 32) else v6 bits

/-- How many bits an address of this family has. -/
def width : IpAddr → Nat
  | v4 _ => 32
  | v6 _ => 128

end IpAddr

end Rust
