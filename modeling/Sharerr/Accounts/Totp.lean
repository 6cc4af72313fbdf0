import Mathlib.Algebra.Group.Nat.Defs
import Sharerr.Rust.Basic
import Sharerr.Tracker.Admission

/-!
# Time-based one-time passwords

`hotp` rests on the SHA-1 of another crate and is a parameter here.
-/

namespace Sharerr

namespace Totp

def stepSecs : Int := 30

def digits : Nat := 6

def skewSteps : Int := 1

def secretBytes : Nat := 20

def alphabet : List Char := "ABCDEFGHIJKLMNOPQRSTUVWXYZ234567".toList

/-- One character of `base32_decode`: the bits not yet taken, how many they
are, and the bytes out so far. -/
def decodeStep (state : Nat × Nat × Bytes) (character : Char) :
    Option (Nat × Nat × Bytes) := do
  let (buffer, bits, out) := state
  let value ← alphabet.idxOf? character.toUpper
  let buffer := (buffer * 32 + value) % 2 ^ 32
  let bits := bits + 5
  if bits ≥ 8 then
    return (buffer % 2 ^ (bits - 8), bits - 8,
      out ++ [UInt8.ofNat (buffer / 2 ^ (bits - 8) % 256)])
  else return (buffer, bits, out)

/-- `base32_decode`: case, spaces and `=` padding are ignored. -/
def base32Decode (text : String) : Option Bytes := do
  let characters := text.toList.filter fun character =>
    !Rust.isWhitespace character && character ≠ '='
  let (_, _, out) ← characters.foldlM decodeStep (0, 0, [])
  return out

section Codes

variable (hotp : (key : Bytes) → (counter : Nat) → Nat)

/-- The code a counter value renders to. -/
def codeFor (key : Bytes) (counter : Nat) : String :=
  let number := toString (hotp key counter % 10 ^ digits)
  String.ofList (List.replicate (digits - number.length) '0') ++ number

def isDigit (character : Char) : Bool :=
  '0' ≤ character && character ≤ '9'

/-- The first of the accepted steps whose code this is. -/
def stepOf (key : Bytes) (code : String) (current : Int) : Option Int :=
  [current - skewSteps, current, current + skewSteps].find? fun step =>
    decide (0 ≤ step) &&
      Tracker.constantTimeEq (codeFor hotp key step.toNat) code

/-- The step the code is valid for at the Unix time `now`. -/
def verify (secret code : String) (now : Int) : Option Int :=
  let code := String.ofList
    (code.toList.filter fun character => !Rust.isWhitespace character)
  if code.utf8ByteSize ≠ digits ∨ ¬ code.toList.all isDigit then none
  else
    (base32Decode secret).bind fun key =>
      stepOf hotp key code (Int.fdiv now stepSecs)

end Codes

/-- Whether a secret is one that `generate_secret` could have made. -/
def isValidSecret (secret : String) : Bool :=
  (base32Decode secret).any fun key => key.length = secretBytes

end Totp

end Sharerr
