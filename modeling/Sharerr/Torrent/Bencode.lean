import Sharerr.Rust.BTreeMap
import Sharerr.Rust.Decimal
import Sharerr.Vault.File

/-!
# Bencode

What a `.torrent` is written in.  A value is encoded in one way only, with the
keys of every dictionary in order.  The decoder takes keys in any order, and
lengths with zeros in front.
-/

namespace Sharerr

namespace Bencode

open Rust (BTreeMap.insert)

/-- A dictionary is the entries of a `BTreeMap`. -/
inductive Value where
  | int (number : Int)
  | bytes (content : Bytes)
  | list (items : List Value)
  | dict (entries : List (Bytes × Value))
deriving Repr

inductive BencodeError where
  | truncated
  | unexpected (byte : UInt8) (offset : Nat)
  | malformedInteger (offset : Nat)
  | malformedLength (offset : Nat)
  | keyNotAString (offset : Nat)
  | tooDeep (limit : Nat)
  | trailingBytes (trailing : Nat)
deriving DecidableEq, Repr

def maxDepth : Nat := 32

def writeInt (number : Int) : Bytes := 105 :: Rust.signedDecimal number ++ [101]

/-- The `<len>:` prefix. -/
def writeLen (len : Nat) : Bytes := Rust.decimal len ++ [58]

def writeBytes (bytes : Bytes) : Bytes := writeLen bytes.length ++ bytes

mutual

def Value.write : Value → Bytes
  | .int number => writeInt number
  | .bytes bytes => writeBytes bytes
  | .list items => 108 :: writeItems items ++ [101]
  | .dict entries => 100 :: writeEntries entries ++ [101]

def writeItems : List Value → Bytes
  | [] => []
  | item :: items => item.write ++ writeItems items

def writeEntries : List (Bytes × Value) → Bytes
  | [] => []
  | (key, value) :: entries =>
    writeBytes key ++ value.write ++ writeEntries entries

end

def writeDict (entries : List (Bytes × Value)) : Bytes :=
  100 :: writeEntries entries ++ [101]

/-- A position, and the input from there. -/
structure Parser where
  pos : Nat
  rest : Bytes
deriving DecidableEq, Repr

namespace Parser

def advance (parser : Parser) (count : Nat) : Parser :=
  ⟨parser.pos + count, parser.rest.drop count⟩

def peek (parser : Parser) : Except BencodeError UInt8 :=
  match parser.rest with
  | [] => .error .truncated
  | byte :: _ => .ok byte

/-- The bytes before the first `stop`. -/
def upTo (stop : UInt8) (rest : Bytes) : Option Bytes :=
  if stop ∈ rest then some (rest.takeWhile (· ≠ stop)) else none

/-- Only the printed form of a number is taken. -/
def integer (parser : Parser) : Except BencodeError (Value × Parser) :=
  let inner := parser.advance 1
  match upTo 101 inner.rest with
  | none => .error .truncated
  | some digits =>
    match (Rust.parseI64 digits).filter (Rust.signedDecimal · = digits) with
    | none => .error (.malformedInteger parser.pos)
    | some number => .ok (.int number, inner.advance (digits.length + 1))

def bytes (parser : Parser) : Except BencodeError (Bytes × Parser) :=
  match upTo 58 parser.rest with
  | none => .error .truncated
  | some digits =>
    match Rust.parseUsize digits with
    | none => .error (.malformedLength parser.pos)
    | some len =>
      let content := parser.advance (digits.length + 1)
      if content.rest.length < len then .error .truncated
      else .ok (content.rest.take len, content.advance len)

/-- The loop over the items of a list.  Each of them takes up a byte at least,
so that a budget of the bytes that are left is never used up before them. -/
def items (item : Parser → Except BencodeError (Value × Parser)) :
    Nat → List Value → Parser → Except BencodeError (List Value × Parser)
  | 0, _, _ => .error .truncated
  | budget + 1, done, parser => do
      if (← parser.peek) = 101 then return (done, parser.advance 1)
      let (value, parser) ← item parser
      items item budget (done ++ [value]) parser

/-- The loop over the entries of a dictionary. -/
def entries (item : Parser → Except BencodeError (Value × Parser)) :
    Nat → List (Bytes × Value) → Parser →
      Except BencodeError (List (Bytes × Value) × Parser)
  | 0, _, _ => .error .truncated
  | budget + 1, done, parser => do
      let byte ← parser.peek
      if byte = 101 then return (done, parser.advance 1)
      if !Rust.isAsciiDigit byte then throw (.keyNotAString parser.pos)
      let (key, parser) ← parser.bytes
      let (value, parser) ← item parser
      entries item budget (BTreeMap.insert key value done) parser

/-- `value`, with how many levels there may still be: none are left at a depth
over `MAX_DEPTH`. -/
def value : Nat → Parser → Except BencodeError (Value × Parser)
  | 0, _ => .error (.tooDeep maxDepth)
  | levels + 1, parser => do
      let byte ← parser.peek
      if byte = 105 then parser.integer
      else if Rust.isAsciiDigit byte then
        let (bytes, parser) ← parser.bytes
        return (.bytes bytes, parser)
      else if byte = 108 then
        let (items, parser) ← (parser.advance 1).items (value levels)
          (parser.rest.length - 1) []
        return (.list items, parser)
      else if byte = 100 then
        let (entries, parser) ← (parser.advance 1).entries (value levels)
          (parser.rest.length - 1) []
        return (.dict entries, parser)
      else throw (.unexpected byte parser.pos)

end Parser

def Value.decode (input : Bytes) : Except BencodeError Value := do
  let (value, parser) ← Parser.value (maxDepth + 1) ⟨0, input⟩
  if parser.rest ≠ [] then throw (.trailingBytes parser.rest.length)
  return value

namespace Value

def asBytes : Value → Option Bytes
  | .bytes content => some content
  | _ => none

def asStr (value : Value) : Option String := value.asBytes.bind Vault.fromUtf8

def asList : Value → Option (List Value)
  | .list items => some items
  | _ => none

end Value

end Bencode

end Sharerr
