import Mathlib.Data.Nat.Digits.Lemmas
import Sharerr.Rust.Text

/-!
# Numbers in bytes

How integers are printed, and what `parse` makes of the ASCII bytes of a
number.  A number can be written in several ways, of which the printed one has
no zero in front.
-/

namespace Rust

/-- `u8::is_ascii_digit`. -/
def isAsciiDigit (byte : UInt8) : Bool := 48 ≤ byte && byte ≤ 57

def digitByte (digit : Nat) : UInt8 := UInt8.ofNat (48 + digit)

/-- `to_string` of an unsigned integer. -/
def decimal (number : Nat) : List UInt8 :=
  if number = 0 then [48]
  else ((Nat.digits 10 number).map digitByte).reverse

/-- `to_string` of a signed integer. -/
def signedDecimal (number : Int) : List UInt8 :=
  if number < 0 then 45 :: decimal number.natAbs else decimal number.natAbs

/-- The number that digits stand for. -/
def numeral (digits : List UInt8) : Nat :=
  digits.foldl (fun total digit => total * 10 + (digit.toNat - 48)) 0

/-- The number written by digits, of which there has to be one. -/
def parseDigits (digits : List UInt8) : Option Nat :=
  if digits ≠ [] ∧ digits.all isAsciiDigit then some (numeral digits) else none

/-- `parse::<usize>`, of 64 bits; a leading `+` is let through. -/
def parseUsize (text : List UInt8) : Option Nat :=
  let digits := match text with
    | 43 :: rest => rest
    | all => all
  (parseDigits digits).filter (· < u64Bound)

/-- `parse::<i64>`, which lets a leading sign through. -/
def parseI64 (text : List UInt8) : Option Int :=
  let (sign, digits) : Int × List UInt8 := match text with
    | 45 :: rest => (-1, rest)
    | 43 :: rest => (1, rest)
    | all => (1, all)
  ((parseDigits digits).map fun number => sign * (number : Int)).filter
    fun number => i64Min ≤ number ∧ number ≤ i64Max

/-- The bytes write a length, with zeros in front or without. -/
def IsLength (digits : List UInt8) (len : Nat) : Prop :=
  parseDigits digits = some len

theorem isAsciiDigit_digitByte {digit : Nat} (small : digit < 10) :
    isAsciiDigit (digitByte digit) = true ∧
      (digitByte digit).toNat - 48 = digit := by
  have all : ∀ digit, digit < 10 → isAsciiDigit (digitByte digit) = true ∧
      (digitByte digit).toNat - 48 = digit := by
    decide
  exact all digit small

theorem decimal_ne_nil (number : Nat) : decimal number ≠ [] := by
  unfold decimal
  split
  · exact List.cons_ne_nil _ _
  · rename_i positive
    simpa using Nat.digits_ne_nil_iff_ne_zero.mpr positive

theorem all_isAsciiDigit_decimal (number : Nat) :
    (decimal number).all isAsciiDigit = true := by
  unfold decimal
  split
  · decide
  · rw [List.all_eq_true]
    intro byte member
    rw [List.mem_reverse] at member
    obtain ⟨digit, among, rfl⟩ := List.mem_map.mp member
    exact (isAsciiDigit_digitByte (Nat.digits_lt_base (by decide) among)).1

theorem numeral_decimal (number : Nat) : numeral (decimal number) = number := by
  have read : ∀ digits : List Nat, (∀ digit ∈ digits, digit < 10) →
      numeral (digits.map digitByte).reverse = Nat.ofDigits 10 digits := by
    intro digits small
    induction digits with
    | nil => rfl
    | cons digit digits ih =>
      have rest := ih fun other member =>
        small other (List.mem_cons_of_mem _ member)
      have first := (isAsciiDigit_digitByte
        (small digit List.mem_cons_self)).2
      rw [numeral] at rest ⊢
      rw [List.map_cons, List.reverse_cons, List.foldl_append, rest,
        Nat.ofDigits_cons]
      simp only [List.foldl_cons, List.foldl_nil, first]
      omega
  unfold decimal
  split
  · rename_i zero
    rw [zero]
    rfl
  · rw [read _ fun digit member => Nat.digits_lt_base (by decide) member,
      Nat.ofDigits_digits]

theorem isLength_decimal (len : Nat) : IsLength (decimal len) len := by
  rw [IsLength, parseDigits,
    if_pos ⟨decimal_ne_nil len, all_isAsciiDigit_decimal len⟩, numeral_decimal]

section Length

variable {digits : List UInt8} {len : Nat}

theorem isAsciiDigit_of_isLength (isLength : IsLength digits len)
    {byte : UInt8} (member : byte ∈ digits) : isAsciiDigit byte = true := by
  rw [IsLength, parseDigits] at isLength
  split at isLength
  · rename_i valid
    exact List.all_eq_true.mp valid.2 byte member
  · cases isLength

theorem ne_nil_of_isLength (isLength : IsLength digits len) : digits ≠ [] := by
  rintro rfl
  cases isLength

/-- Where the first byte is a digit there is no sign. -/
theorem isLength_of_parseUsize {first : UInt8} {rest : List UInt8}
    (digit : isAsciiDigit first = true)
    (parsed : parseUsize (first :: rest) = some len) :
    IsLength (first :: rest) len := by
  have unsigned : first ≠ 43 := by
    rintro rfl
    cases digit
  simp only [parseUsize, Option.filter_eq_some_iff] at parsed
  split at parsed
  · rename_i same
    exact absurd (List.cons.inj same).1 unsigned
  · exact parsed.1

theorem parseUsize_of_isLength (isLength : IsLength digits len)
    (fits : len < u64Bound) : parseUsize digits = some len := by
  cases digits with
  | nil => cases isLength
  | cons first rest =>
    have digit := isAsciiDigit_of_isLength isLength List.mem_cons_self
    have unsigned : first ≠ 43 := by
      intro plus
      rw [plus] at digit
      cases digit
    simp only [parseUsize]
    split
    · rename_i same
      exact absurd (List.cons.inj same).1 unsigned
    · rw [show parseDigits (first :: rest) = some len from isLength,
        Option.filter_some, if_pos (by simpa using fits)]

end Length

theorem parseDigits_decimal (number : Nat) :
    parseDigits (decimal number) = some number :=
  isLength_decimal number

/-- Digits after a sign, where the number is in range. -/
theorem signed_of_digits {sign number : Int} {digits : List UInt8}
    {value : Nat} (read : parseDigits digits = some value)
    (same : sign * (value : Int) = number) (low : i64Min ≤ number)
    (high : number ≤ i64Max) :
    ((parseDigits digits).map fun number => sign * (number : Int)).filter
      (fun number => i64Min ≤ number ∧ number ≤ i64Max) = some number := by
  rw [read]
  change Option.filter _ (some (sign * (value : Int))) = some number
  rw [same, Option.filter_some, if_pos (decide_eq_true ⟨low, high⟩)]

theorem parseI64_minus (digits : List UInt8) : parseI64 (45 :: digits) =
    ((parseDigits digits).map fun number => -1 * (number : Int)).filter
      fun number => i64Min ≤ number ∧ number ≤ i64Max :=
  rfl

theorem parseI64_digits {first : UInt8} (digit : isAsciiDigit first = true)
    (rest : List UInt8) : parseI64 (first :: rest) =
      ((parseDigits (first :: rest)).map fun number =>
        1 * (number : Int)).filter
          fun number => i64Min ≤ number ∧ number ≤ i64Max := by
  have noMinus : first ≠ 45 := by
    intro minus
    rw [minus] at digit
    cases digit
  have noPlus : first ≠ 43 := by
    intro plus
    rw [plus] at digit
    cases digit
  simp [parseI64, noMinus, noPlus]

theorem parseI64_signedDecimal {number : Int} (low : i64Min ≤ number)
    (high : number ≤ i64Max) :
    parseI64 (signedDecimal number) = some number := by
  have read := parseDigits_decimal number.natAbs
  by_cases negative : number < 0
  · rw [signedDecimal, if_pos negative, parseI64_minus]
    exact signed_of_digits read (by omega) low high
  · rw [signedDecimal, if_neg negative]
    have all := List.all_eq_true.mp (all_isAsciiDigit_decimal number.natAbs)
    cases printed : decimal number.natAbs with
    | nil => exact absurd printed (decimal_ne_nil _)
    | cons first rest =>
      rw [printed] at read all
      rw [parseI64_digits (all first List.mem_cons_self)]
      exact signed_of_digits read (by omega) low high

theorem range_of_parseI64 {text : List UInt8} {number : Int}
    (parsed : parseI64 text = some number) :
    i64Min ≤ number ∧ number ≤ i64Max := by
  unfold parseI64 at parsed
  split at parsed
  exact of_decide_eq_true (Option.filter_eq_some_iff.mp parsed).2

theorem lt_of_parseUsize {text : List UInt8} {len : Nat}
    (parsed : parseUsize text = some len) : len < u64Bound :=
  of_decide_eq_true (Option.filter_eq_some_iff.mp parsed).2

/-- A printed integer has only digits after its sign. -/
theorem mem_signedDecimal {number : Int} {byte : UInt8}
    (member : byte ∈ signedDecimal number) :
    byte = 45 ∨ isAsciiDigit byte = true := by
  rw [signedDecimal] at member
  have all := List.all_eq_true.mp (all_isAsciiDigit_decimal number.natAbs)
  split at member
  · rcases List.mem_cons.mp member with sign | digit
    · exact .inl sign
    · exact .inr (all byte digit)
  · exact .inr (all byte member)

end Rust
