import Sharerr.Rust.Padded

/-!
# Signed integers in texts

What `parse` makes of the text of an `i64`, with what its error is printed as.
A number is written with a sign or without, and with zeros in front or none.
-/

namespace Rust

/-- One more digit of a number with this sign. -/
def pushDigit (sign total : Int) (character : Char) : Except String Int :=
  match digit character with
  | none => .error "invalid digit found in string"
  | some value =>
    let next := total * 10 + sign * value
    if i64Min ≤ next ∧ next ≤ i64Max then .ok next
    else if sign < 0 then .error "number too small to fit in target type"
    else .error "number too large to fit in target type"

/-- `str::parse::<i64>`. -/
def readI64 (text : String) : Except String Int :=
  match text.toList with
  | [] => .error "cannot parse integer from empty string"
  | ['-'] | ['+'] => .error "invalid digit found in string"
  | '-' :: digits => digits.foldlM (pushDigit (-1)) 0
  | '+' :: digits => digits.foldlM (pushDigit 1) 0
  | digits => digits.foldlM (pushDigit 1) 0

/-- The text writes this `i64`. -/
structure IsInteger (text : String) (number : Int) : Prop where
  low : i64Min ≤ number
  high : number ≤ i64Max
  written : ∃ digits value, IsNumeral digits value ∧
    (text.toList = '-' :: digits.toList ∧ number = -(value : Int) ∨
      (text.toList = '+' :: digits.toList ∨ text = digits) ∧ number = value)

theorem le_ofDigitChars (digits : List Char) (total : Nat) :
    total ≤ Nat.ofDigitChars 10 digits total := by
  induction digits generalizing total with
  | nil => exact Nat.le_refl total
  | cons first digits ih =>
    rw [Nat.ofDigitChars_cons]
    have later := ih (10 * total + (first.toNat - '0'.toNat))
    omega

/-- Digits one after the other make the number they stand for, since what is
read of it before the end is no farther from zero. -/
theorem foldlM_pushDigit {sign : Int} (signed : sign = 1 ∨ sign = -1)
    {digits : List Char} (all : ∀ character ∈ digits, character.isDigit = true)
    (total : Nat)
    (low : i64Min ≤ sign * (Nat.ofDigitChars 10 digits total : Nat))
    (high : sign * (Nat.ofDigitChars 10 digits total : Nat) ≤ i64Max) :
    digits.foldlM (pushDigit sign) (sign * total) =
      .ok (sign * (Nat.ofDigitChars 10 digits total : Nat)) := by
  induction digits generalizing total with
  | nil => rfl
  | cons first digits ih =>
    rw [Nat.ofDigitChars_cons] at low high ⊢
    have isDigit := all first List.mem_cons_self
    have more := le_ofDigitChars digits
      (10 * total + (first.toNat - '0'.toNat))
    have next : sign * (total : Int) * 10 +
        sign * ((first.toNat - '0'.toNat : Nat) : Int) =
          sign * ((10 * total + (first.toNat - '0'.toNat) : Nat) : Int) := by
      rcases signed with rfl | rfl <;> omega
    have fits : i64Min ≤ sign *
          ((10 * total + (first.toNat - '0'.toNat) : Nat) : Int) ∧
        sign * ((10 * total + (first.toNat - '0'.toNat) : Nat) : Int) ≤
          i64Max := by
      simp only [i64Min, i64Max] at low high ⊢
      rcases signed with rfl | rfl <;> omega
    rw [List.foldlM_cons, pushDigit, digit_of_isDigit isDigit]
    dsimp only
    rw [next, if_pos fits]
    exact ih (fun other member => all other (List.mem_cons_of_mem _ member))
      _ low high

theorem IsNumeral.exists_cons {digits : String} {value : Nat}
    (isNumeral : IsNumeral digits value) :
    ∃ first rest, digits.toList = first :: rest ∧ first ≠ '-' ∧
      first ≠ '+' := by
  obtain ⟨first, rest, split⟩ :=
    List.exists_cons_of_ne_nil isNumeral.nonempty
  have isDigit := isNumeral.digits first (by simp [split])
  refine ⟨first, rest, split, ?_, ?_⟩
  · rintro rfl
    cases isDigit
  · rintro rfl
    cases isDigit

theorem IsInteger.read {text : String} {number : Int}
    (isInteger : IsInteger text number) : readI64 text = .ok number := by
  obtain ⟨low, high, digits, value, isNumeral, written⟩ := isInteger
  obtain ⟨first, rest, split, notMinus, notPlus⟩ := isNumeral.exists_cons
  have total := isNumeral.value
  have fold {sign : Int} (signed : sign = 1 ∨ sign = -1)
      (same : number = sign * value) :
      digits.toList.foldlM (pushDigit sign) 0 = .ok number := by
    rw [same, ← total] at low high ⊢
    have folded := foldlM_pushDigit signed isNumeral.digits 0 low high
    rwa [Int.natCast_zero, Int.mul_zero] at folded
  rw [readI64]
  rcases written with ⟨starts, same⟩ | ⟨starts | rfl, same⟩
  · rw [starts, split]
    change (first :: rest).foldlM (pushDigit (-1)) 0 = _
    rw [← split]
    exact fold (.inr rfl) (by omega)
  · rw [starts, split]
    change (first :: rest).foldlM (pushDigit 1) 0 = _
    rw [← split]
    exact fold (.inl rfl) (by omega)
  · split
    case h_1 none_ => exact absurd none_ isNumeral.nonempty
    case h_2 starts | h_4 starts =>
      exact absurd (List.head_eq_of_cons_eq (split.symm.trans starts)) notMinus
    case h_3 starts | h_5 starts =>
      exact absurd (List.head_eq_of_cons_eq (split.symm.trans starts)) notPlus
    case h_6 => exact fold (.inl rfl) (by omega)

theorem IsInteger.trim_eq {text : String} {number : Int}
    (isInteger : IsInteger text number) : trim text = text := by
  obtain ⟨_, _, digits, value, isNumeral, written⟩ := isInteger
  have plain : ∀ character ∈ digits.toList,
      isWhitespace character = false := fun character member =>
    isWhitespace_of_isAlphanum (isNumeral.alphanum member)
  refine (IsTrimmed.of_plain fun character member => ?_).trim_eq
  rcases written with ⟨starts, _⟩ | ⟨starts | rfl, _⟩
  · rw [starts] at member
    rcases List.mem_cons.mp member with rfl | member
    · rfl
    · exact plain character member
  · rw [starts] at member
    rcases List.mem_cons.mp member with rfl | member
    · rfl
    · exact plain character member
  · exact plain character member

end Rust
