import Sharerr.Rust.Basic

/-!
# Numbers and letters in texts

More of the operations on `str` and `char` the source relies on.
-/

namespace Rust

def u64Bound : Nat := 18446744073709551616

/-- `str::parse::<u64>`: digits, with one leading `+` let through. -/
def parseU64 (text : String) : Option Nat := do
  let digits := match text.toList with
    | '+' :: rest => rest
    | all => all
  if digits.isEmpty then none
  else
    let values ← digits.mapM digit
    let value := values.foldl (fun total next => total * 10 + next) 0
    if value < u64Bound then some value else none

/-- `str::strip_suffix`. -/
def stripSuffix (tail text : String) : Option String :=
  if tail.toList.isSuffixOf text.toList then
    some (String.ofList (text.toList.take
      (text.toList.length - tail.toList.length)))
  else none

/-- `str::replace` of a pattern of two characters. -/
def replacePair (first second : Char) (text : List Char) :
    List Char → List Char
  | one :: other :: rest =>
    if one = first ∧ other = second then
      text ++ replacePair first second text rest
    else one :: replacePair first second text (other :: rest)
  | short => short

/-- `{:02}`. -/
def twoDigits (number : Nat) : String :=
  let text := toString number
  if text.length < 2 then "0" ++ text else text

section Alphanum

variable {character : Char} (isAlphanum : character.isAlphanum = true)

include isAlphanum

theorem range_of_isAlphanum :
    48 ≤ character.toNat ∧ character.toNat ≤ 57 ∨
      65 ≤ character.toNat ∧ character.toNat ≤ 90 ∨
      97 ≤ character.toNat ∧ character.toNat ≤ 122 := by
  delta Char.isAlphanum Char.isAlpha Char.isUpper Char.isLower Char.isDigit
    at isAlphanum
  simp only [Bool.or_eq_true, Bool.and_eq_true, decide_eq_true_eq,
    UInt32.le_iff_toNat_le, ge_iff_le] at isAlphanum
  change (65 ≤ character.toNat ∧ character.toNat ≤ 90 ∨
    97 ≤ character.toNat ∧ character.toNat ≤ 122) ∨
    48 ≤ character.toNat ∧ character.toNat ≤ 57 at isAlphanum
  omega

theorem ascii_of_isAlphanum : character.toNat < 128 := by
  have range := range_of_isAlphanum isAlphanum
  omega

theorem isWhitespace_of_isAlphanum : isWhitespace character = false := by
  have range := range_of_isAlphanum isAlphanum
  simp only [isWhitespace, Bool.or_eq_false_iff, Bool.and_eq_false_iff,
    decide_eq_false_iff_not]
  omega

end Alphanum

/-- An ASCII character takes up a byte. -/
theorem utf8ByteSize_of_ascii {characters : List Char}
    (ascii : ∀ character ∈ characters, character.toNat < 128) :
    (String.ofList characters).utf8ByteSize = characters.length := by
  induction characters with
  | nil => rfl
  | cons character rest ih =>
    have low : character.toNat < 128 := ascii character List.mem_cons_self
    have small : character.utf8Size = 1 := by
      rw [Char.utf8Size_eq_one_iff, UInt32.le_iff_toNat_le]
      exact Nat.le_of_lt_succ low
    rw [String.ofList_cons, String.utf8ByteSize_append,
      ih fun other member => ascii other (List.mem_cons_of_mem _ member),
      String.utf8ByteSize_singleton, small, List.length_cons, Nat.add_comm]

/-- A text of decimal digits and the number they stand for. -/
structure IsNumeral (text : String) (number : Nat) : Prop where
  nonempty : text.toList ≠ []
  digits : ∀ character ∈ text.toList, character.isDigit = true
  value : Nat.ofDigitChars 10 text.toList 0 = number

variable {number : Nat} {text : String}

/-- Digits are among the letters and digits. -/
theorem IsNumeral.alphanum (isNumeral : IsNumeral text number)
    {character : Char} (member : character ∈ text.toList) :
    character.isAlphanum = true := by
  rw [Char.isAlphanum, isNumeral.digits character member, Bool.or_true]

theorem isNumeral_toString (number : Nat) :
    IsNumeral (toString number) number where
  nonempty := by simp
  digits := by
    intro character member
    rw [Nat.toString_eq_repr, Nat.toList_repr] at member
    exact Nat.isDigit_of_mem_toDigits (by decide) (by decide) member
  value := by simp

theorem isNumeral_twoDigits (number : Nat) :
    IsNumeral (twoDigits number) number := by
  have printed := isNumeral_toString number
  unfold twoDigits
  dsimp only
  split
  · constructor
    · simp
    · intro character member
      rw [String.toList_append, List.mem_append] at member
      rcases member with zero | member
      · have same : character = '0' := by simpa using zero
        rw [same]
        rfl
      · exact printed.digits character member
    · rw [String.toList_append, Nat.ofDigitChars_append]
      exact printed.value
  · exact printed

theorem digit_of_isDigit {character : Char}
    (isDigit : character.isDigit = true) :
    digit character = some (character.toNat - '0'.toNat) := by
  have range : '0' ≤ character ∧ character ≤ '9' := by
    simpa [Char.isDigit, Char.le_def] using isDigit
  rw [digit, if_pos range]

theorem mapM_digit {digits : List Char}
    (all : ∀ character ∈ digits, character.isDigit = true) :
    digits.mapM digit =
      some (digits.map fun character => character.toNat - '0'.toNat) := by
  induction digits with
  | nil => rfl
  | cons first digits ih =>
    rw [List.mapM_cons, digit_of_isDigit (all first List.mem_cons_self),
      ih fun other member => all other (List.mem_cons_of_mem _ member)]
    rfl

theorem foldl_of_isNumeral (isNumeral : IsNumeral text number) :
    (text.toList.map fun character => character.toNat - '0'.toNat).foldl
      (fun total next => total * 10 + next) 0 = number := by
  rw [← isNumeral.value, Nat.ofDigitChars_eq_foldl, List.foldl_map]
  simp only [Nat.mul_comm]

theorem parseU32_of_isNumeral (isNumeral : IsNumeral text number)
    (fits : number < 4294967296) :
    parseU32 text = some number := by
  have total := foldl_of_isNumeral isNumeral
  unfold parseU32
  dsimp only
  split
  · rename_i rest starts
    cases isNumeral.digits '+' (by simp [starts])
  · rw [if_neg (by simpa using isNumeral.nonempty),
      mapM_digit isNumeral.digits]
    change (if _ < _ then some _ else none) = _
    rw [total, if_pos fits]

theorem parseU64_of_isNumeral (isNumeral : IsNumeral text number)
    (fits : number < u64Bound) :
    parseU64 text = some number := by
  have total := foldl_of_isNumeral isNumeral
  unfold parseU64
  dsimp only
  split
  · rename_i rest starts
    cases isNumeral.digits '+' (by simp [starts])
  · rw [if_neg (by simpa using isNumeral.nonempty),
      mapM_digit isNumeral.digits]
    change (if _ < _ then some _ else none) = _
    rw [total, if_pos fits]

end Rust
