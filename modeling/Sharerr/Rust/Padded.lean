import Sharerr.Rust.Text

/-!
# What is read of a text

A trimmed text is the text without the whitespace around it, a split text two
texts with the mark between them, and a number its digits, with a sign in front
or none.
-/

namespace Rust

def IsBlank (characters : List Char) : Prop :=
  ∀ character ∈ characters, isWhitespace character = true

/-- A text that begins and ends with something else than whitespace. -/
structure IsTrimmed (characters : List Char) : Prop where
  first : ∀ character ∈ characters.head?, isWhitespace character = false
  last : ∀ character ∈ characters.getLast?, isWhitespace character = false

theorem IsTrimmed.nil : IsTrimmed [] :=
  ⟨by simp, by simp⟩

theorem IsTrimmed.of_plain {characters : List Char}
    (plain : ∀ character ∈ characters, isWhitespace character = false) :
    IsTrimmed characters where
  first _ member := plain _ (List.mem_of_head? member)
  last _ member := plain _ (List.mem_of_getLast? member)

section Trim

theorem dropWhile_blank {front rest : List Char} (blank : IsBlank front)
    (starts : ∀ character ∈ rest.head?, isWhitespace character = false) :
    (front ++ rest).dropWhile isWhitespace = rest := by
  rw [List.dropWhile_append_of_pos blank]
  cases rest with
  | nil => rfl
  | cons first rest =>
    exact List.dropWhile_cons_of_neg
      (by rw [starts first rfl]; exact Bool.false_ne_true)

theorem trim_padded {front core back : List Char} (before : IsBlank front)
    (trimmed : IsTrimmed core) (behind : IsBlank back) :
    trim (String.ofList (front ++ core ++ back)) = String.ofList core := by
  have behind_ : IsBlank back.reverse := fun character member =>
    behind character (List.mem_reverse.mp member)
  have ends : ∀ character ∈ core.reverse.head?,
      isWhitespace character = false := by
    intro character member
    rw [List.head?_reverse] at member
    exact trimmed.last character member
  rw [trim, String.toList_ofList]
  cases core with
  | nil =>
    have all : IsBlank (front ++ [] ++ back) := by
      intro character member
      rw [List.append_nil] at member
      exact (List.mem_append.mp member).elim (before _) (behind _)
    rw [List.dropWhile_eq_nil_iff.mpr all]
    rfl
  | cons first core =>
    have starts : ∀ character ∈ (first :: core ++ back).head?,
        isWhitespace character = false := trimmed.first
    rw [List.append_assoc, dropWhile_blank before starts,
      List.reverse_append, dropWhile_blank behind_ ends,
      List.reverse_reverse]

theorem IsTrimmed.trim_eq {text : String} (trimmed : IsTrimmed text.toList) :
    trim text = text := by
  have same := trim_padded (List.forall_mem_nil _) trimmed
    (List.forall_mem_nil _)
  rwa [List.nil_append, List.append_nil, String.ofList_toList] at same

theorem exists_padding (text : String) : ∃ front back,
    IsBlank front ∧ IsBlank back ∧ IsTrimmed (trim text).toList ∧
      text.toList = front ++ (trim text).toList ++ back := by
  have starts : ∀ {characters : List Char},
      ∀ character ∈ (characters.dropWhile isWhitespace).head?,
        isWhitespace character = false := by
    intro characters character member
    have dropped := List.head?_dropWhile_not isWhitespace characters
    rw [member] at dropped
    simpa using dropped
  rw [trim, String.toList_ofList]
  let later := text.toList.dropWhile isWhitespace
  refine ⟨text.toList.takeWhile isWhitespace,
    (later.reverse.takeWhile isWhitespace).reverse, ?_, ?_, ⟨?_, ?_⟩, ?_⟩
  · exact fun character member => List.mem_takeWhile_imp member
  · exact fun character member =>
      List.mem_takeWhile_imp (List.mem_reverse.mp member)
  · intro character member
    have inFront : (later.reverse.dropWhile isWhitespace).reverse <+: later :=
      List.rdropWhile_prefix isWhitespace later
    obtain ⟨rest, whole⟩ := inFront
    have here : character ∈ later.head? := by
      rw [Option.mem_def, ← whole, List.head?_append, Option.mem_def.mp member]
      rfl
    exact starts character here
  · intro character member
    rw [List.getLast?_reverse] at member
    exact starts character member
  · rw [List.append_assoc, ← List.reverse_append,
      List.takeWhile_append_dropWhile, List.reverse_reverse,
      List.takeWhile_append_dropWhile]

end Trim

theorem stripPrefix_append (head text : String) :
    stripPrefix head (head ++ text) = some text := by
  have lengths : head.length = head.toList.length := String.length_toList.symm
  simp [stripPrefix, lengths]

/-- The first part of a split text is all that stands before the first mark. -/
theorem splitOnce_eq_some {splits : Char → Bool} {text front back : String} :
    splitOnce splits text = some (front, back) ↔
      ∃ mark, splits mark = true ∧
        text.toList = front.toList ++ mark :: back.toList ∧
        ∀ character ∈ front.toList, splits character = false := by
  have halves := List.takeWhile_append_dropWhile
    (p := fun character => !splits character) (l := text.toList)
  have dropped : text.toList.drop (text.toList.takeWhile fun character =>
      !splits character).length =
        text.toList.dropWhile fun character => !splits character := by
    have behind := congrArg (List.drop (text.toList.takeWhile fun character =>
      !splits character).length) halves
    rw [List.drop_left] at behind
    exact behind.symm
  rw [splitOnce, dropped]
  constructor
  · intro split_
    split at split_
    · cases split_
    · next mark rest found =>
        cases split_
        refine ⟨mark, ?_, ?_, fun character member => ?_⟩
        · have stops := List.head?_dropWhile_not
            (fun character => !splits character) text.toList
          rw [found] at stops
          simpa using stops
        · rw [String.toList_ofList, String.toList_ofList, ← found]
          exact halves.symm
        · rw [String.toList_ofList] at member
          simpa using List.mem_takeWhile_imp member
  · intro split_
    obtain ⟨mark, splits_, whole, plain⟩ := split_
    have kept : ∀ character ∈ front.toList,
        (!splits character) = true := by
      intro character member
      rw [plain character member]
      rfl
    have stop : ¬ (!splits mark) = true := by
      rw [splits_]
      exact Bool.false_ne_true
    have front_ : text.toList.takeWhile (fun character => !splits character) =
        front.toList := by
      rw [whole, List.takeWhile_append_of_pos kept,
        List.takeWhile_cons_of_neg (by simpa using stop), List.append_nil]
    have back_ : text.toList.dropWhile (fun character => !splits character) =
        mark :: back.toList := by
      rw [whole, List.dropWhile_append_of_pos kept,
        List.dropWhile_cons_of_neg (by simpa using stop)]
    rw [front_, back_]
    simp only [String.ofList_toList]

/-- `parse` of an unsigned integer below a bound: digits, with one leading `+`
let through. -/
def parseUnsigned (bound : Nat) (text : String) : Option Nat := do
  let digits := match text.toList with
    | '+' :: rest => rest
    | all => all
  if digits.isEmpty then none
  else
    let values ← digits.mapM digit
    let value := values.foldl (fun total next => total * 10 + next) 0
    if value < bound then some value else none

/-- Digits with a sign in front or none. -/
def IsNumber (text : String) (number : Nat) : Prop :=
  IsNumeral text number ∨
    ∃ digits, text.toList = '+' :: digits ∧
      IsNumeral (String.ofList digits) number

/-- A text is a number in one way. -/
theorem IsNumber.unique {text : String} {number other : Nat}
    (isNumber : IsNumber text number) (isOther : IsNumber text other) :
    number = other := by
  have unsigned {text : String} {value : Nat}
      (isNumeral : IsNumeral text value) {digits : List Char} :
      text.toList ≠ '+' :: digits := by
    intro signed
    have plus := isNumeral.digits '+' (by simp [signed])
    cases plus
  rcases isNumber with here | ⟨digits, signed, here⟩
  · rcases isOther with there | ⟨digits, signed, -⟩
    · rw [← here.value, there.value]
    · exact absurd signed (unsigned here)
  · rcases isOther with there | ⟨others, signed_, there⟩
    · exact absurd signed (unsigned there)
    · rw [signed, List.cons.injEq] at signed_
      rw [← signed_.2] at there
      rw [← here.value, there.value]

theorem isDigit_of_digit {character : Char} {value : Nat}
    (read : digit character = some value) :
    character.isDigit = true ∧ value = character.toNat - '0'.toNat := by
  rw [digit] at read
  split at read
  · next range =>
      cases read
      exact ⟨by simpa [Char.isDigit, Char.le_def] using range, rfl⟩
  · cases read

theorem of_mapM_digit {digits : List Char} {values : List Nat}
    (read : digits.mapM digit = some values) :
    (∀ character ∈ digits, character.isDigit = true) ∧
      values = digits.map fun character => character.toNat - '0'.toNat := by
  induction digits generalizing values with
  | nil =>
    cases read
    exact ⟨List.forall_mem_nil _, rfl⟩
  | cons first digits ih =>
    rw [List.mapM_cons] at read
    obtain ⟨value, here, later⟩ := Option.bind_eq_some_iff.mp read
    obtain ⟨rest, there, same⟩ := Option.bind_eq_some_iff.mp later
    cases same
    obtain ⟨all, rfl⟩ := ih there
    obtain ⟨isDigit, rfl⟩ := isDigit_of_digit here
    exact ⟨List.forall_mem_cons.mpr ⟨isDigit, all⟩, rfl⟩

theorem read_digits_iff {digits : List Char} {bound number : Nat} :
    (if digits.isEmpty then none
      else (digits.mapM digit).bind fun values =>
        let value := values.foldl (fun total next => total * 10 + next) 0
        if value < bound then some value else none) = some number ↔
      IsNumeral (String.ofList digits) number ∧ number < bound := by
  constructor
  · intro read
    split at read
    · cases read
    · next some_ =>
        obtain ⟨values, mapped, low⟩ := Option.bind_eq_some_iff.mp read
        obtain ⟨all, rfl⟩ := of_mapM_digit mapped
        have isNumeral : IsNumeral (String.ofList digits)
            (Nat.ofDigitChars 10 digits 0) :=
          ⟨by simpa using some_, by simpa using all, by simp⟩
        have value := foldl_of_isNumeral isNumeral
        rw [String.toList_ofList] at value
        dsimp only at low
        rw [value] at low
        split at low
        · next fits =>
            cases low
            exact ⟨isNumeral, fits⟩
        · cases low
  · intro written
    obtain ⟨isNumeral, fits⟩ := written
    have value := foldl_of_isNumeral isNumeral
    have all := isNumeral.digits
    have some_ := isNumeral.nonempty
    rw [String.toList_ofList] at value all some_
    rw [if_neg (by simpa using some_), mapM_digit all, Option.bind_some]
    dsimp only
    rw [value, if_pos fits]

theorem parseUnsigned_eq_some {bound number : Nat} {text : String} :
    parseUnsigned bound text = some number ↔
      IsNumber text number ∧ number < bound := by
  have noSign {digits : List Char} :
      ¬ IsNumeral (String.ofList ('+' :: digits)) number := by
    intro isNumeral
    have plus := isNumeral.digits '+' (by simp)
    cases plus
  rw [parseUnsigned]
  dsimp only
  split
  · next rest signed =>
      rw [IsNumber, ← String.ofList_toList (s := text), signed]
      refine read_digits_iff.trans (and_congr_left fun _ => ?_)
      constructor
      · intro isNumeral
        exact .inr ⟨rest, String.toList_ofList, isNumeral⟩
      · rintro (isNumeral | ⟨digits, same, isNumeral⟩)
        · exact absurd isNumeral noSign
        · rw [String.toList_ofList, List.cons.injEq] at same
          rw [same.2]
          exact isNumeral
  · next unsigned =>
      rw [IsNumber]
      refine read_digits_iff.trans (and_congr_left fun _ => ?_)
      rw [String.ofList_toList]
      constructor
      · exact .inl
      · rintro (isNumeral | ⟨digits, signed, -⟩)
        · exact isNumeral
        · exact absurd signed (unsigned digits)

end Rust
