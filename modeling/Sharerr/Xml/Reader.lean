import Mathlib.Data.List.TakeWhile

/-!
# The characters of XML

Which characters a document of XML 1.0 may hold, and what its references stand
for.
-/

namespace Xml

/-- A text, by its characters. -/
abbrev Text := List Char

/-- `Char`. -/
def isChar (character : Char) : Bool :=
  character = '\t' || character = '\n' || character = '\r' ||
    0x20 ≤ character.toNat && character.toNat ≠ 0xFFFE &&
      character.toNat ≠ 0xFFFF

/-- `S`. -/
def isSpace (character : Char) : Bool :=
  character = ' ' || character = '\t' || character = '\n' || character = '\r'

def within (ranges : List (Nat × Nat)) (character : Char) : Bool :=
  ranges.any fun range =>
    range.1 ≤ character.toNat && character.toNat ≤ range.2

/-- The character a reference to a number stands for. -/
def characterOf (base : Nat) (digits : Text) : Option Char := do
  let value (digit : Char) : Option Nat :=
    if digit.isDigit then some (digit.toNat - '0'.toNat)
    else if base = 16 && within [(0x41, 0x46), (0x61, 0x66)] digit then
      some (digit.toLower.toNat - 'a'.toNat + 10)
    else none
  if digits = [] then none
  else
    let values ← digits.mapM value
    let code := values.foldl (fun total next => total * base + next) 0
    if code.isValidChar && isChar (Char.ofNat code) then
      some (Char.ofNat code)
    else none

/-- What stands between `&` and `;`.  Without declarations there are five
entities. -/
def reference : Text → Option Char
  | ['a', 'm', 'p'] => some '&'
  | ['l', 't'] => some '<'
  | ['g', 't'] => some '>'
  | ['q', 'u', 'o', 't'] => some '"'
  | ['a', 'p', 'o', 's'] => some '\''
  | '#' :: 'x' :: digits => characterOf 16 digits
  | '#' :: digits => characterOf 10 digits
  | _ => none

end Xml
