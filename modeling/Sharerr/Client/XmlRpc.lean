import Sharerr.Rust.Signed
import Sharerr.Xml.Events

/-!
# What rTorrent replies

The reply to a call is one value, read off the events of an XML document.  The
reader goes forward only, so each function returns what is left of the events.

The functions that call one another are given more steps than there are events
left, and do not use them up: each one reads an event before it calls the next.
-/

namespace Sharerr

namespace XmlRpc

open Xml (Event)

inductive XmlValue where
  | str (text : String)
  | int (number : Int)
  | array (items : List XmlValue)
  | struct (members : List (String × XmlValue))

/-- What is not the program's own. -/
structure Library where
  /-- `BytesRef::resolve_char_ref` and `escape::resolve_xml_entity`. -/
  resolveCharRef : String → Except String (Option Char)
  resolveXmlEntity : String → Option String
  /-- `{:?}`. -/
  debugEvent : Event → String
  debugText : String → String
  debugValue : XmlValue → String

/-- The events that are left, and where the document is not well formed an
error. -/
abbrev Reader := List (Except String Event)

/-- `char::is_ascii_whitespace`. -/
def isAsciiWhitespace (character : Char) : Bool :=
  character = ' ' || character = '\t' || character = '\n' ||
    character = '\r' || character.toNat = 0x0C

def nextStructural : Reader → Except String (Event × Reader)
  | [] => .ok (.eof, [])
  | .error err :: _ => .error err
  | .ok event :: reader =>
    match event with
    | .text text =>
      if text.toList.all isAsciiWhitespace then nextStructural reader
      else .ok (.text text, reader)
    | event => .ok (event, reader)

section Parsing

variable (library : Library)

def expectStart (tag : String) (reader : Reader) : Except String Reader := do
  let (event, reader) ← nextStructural reader
  if event = .start tag then return reader
  else throw s!"expected <{tag}>, got {library.debugEvent event}"

def expectEnd (tag : String) (reader : Reader) : Except String Reader := do
  let (event, reader) ← nextStructural reader
  if event = .finish tag then return reader
  else throw s!"expected </{tag}>, got {library.debugEvent event}"

def pushGeneralRef (name text : String) : Except String String := do
  match ← library.resolveCharRef name with
  | some character => return text.push character
  | none =>
    match library.resolveXmlEntity name with
    | some resolved => return text ++ resolved
    | none => throw s!"unknown entity reference &{name};"

/-- Text, CDATA and references run together up to the end tag. -/
def readTextUntilEnd (tag : String) :
    String → Reader → Except String (String × Reader)
  | _, [] =>
    .error s!"unexpected event reading <{tag}>: {library.debugEvent .eof}"
  | _, .error err :: _ => .error err
  | text, .ok event :: reader =>
    match event with
    | .text more => readTextUntilEnd tag (text ++ more) reader
    | .cData more => readTextUntilEnd tag (text ++ more) reader
    | .generalRef name => do
        let text ← pushGeneralRef library name text
        readTextUntilEnd tag text reader
    | event =>
      if event = .finish tag then .ok (text, reader)
      else
        .error
          s!"unexpected event reading <{tag}>: {library.debugEvent event}"

def readElementText (tag : String) (reader : Reader) :
    Except String (String × Reader) :=
  readTextUntilEnd library tag "" reader

/-- An element of a type, after its opening tag. -/
def parseTyped (parseArray : Reader → Except String (XmlValue × Reader))
    (parseMembers :
      Reader → Except String (List (String × XmlValue) × Reader))
    (tag : String) (reader : Reader) : Except String (XmlValue × Reader) :=
  if tag = "array" then parseArray reader
  else if tag = "struct" then do
    let (members, reader) ← parseMembers reader
    return (.struct members, reader)
  else if tag = "string" then do
    let (text, reader) ← readElementText library "string" reader
    return (.str text, reader)
  else if tag = "i4" ∨ tag = "int" ∨ tag = "i8" then do
    let (text, reader) ← readElementText library tag reader
    match Rust.readI64 (Rust.trim text) with
    | .ok number => return (.int number, reader)
    | .error err =>
      throw s!"{err} parsing {library.debugText text} as an integer"
  else throw s!"unsupported XML-RPC value type <{tag}>"

mutual

/-- A value, after its opening tag. -/
def parseValue : Nat → Reader → Except String (XmlValue × Reader)
  | 0, _ => .error ""
  | steps + 1, reader => do
      let (event, reader) ← nextStructural reader
      match event with
      | .text text =>
        let (text, reader) ← readTextUntilEnd library "value" text reader
        return (.str text, reader)
      | .generalRef name =>
        let text ← pushGeneralRef library name ""
        let (text, reader) ← readTextUntilEnd library "value" text reader
        return (.str text, reader)
      | .start tag =>
        let (result, reader) ←
          parseTyped library (parseArray steps) (parseMembers steps) tag
            reader
        let reader ← expectEnd library "value" reader
        return (result, reader)
      | event =>
        if event = .finish "value" then return (.str "", reader)
        else
          throw s!"unexpected event inside <value>: {library.debugEvent event}"

def parseArray : Nat → Reader → Except String (XmlValue × Reader)
  | 0, _ => .error ""
  | steps + 1, reader => do
      let (event, reader) ← nextStructural reader
      if event = .start "data" then
        let (items, reader) ← parseData steps reader
        let reader ← expectEnd library "array" reader
        return (.array items, reader)
      else if event = .empty "data" then
        let reader ← expectEnd library "array" reader
        return (.array [], reader)
      else throw s!"expected <data>, got {library.debugEvent event}"

/-- The items up to the end of `data`. -/
def parseData : Nat → Reader → Except String (List XmlValue × Reader)
  | 0, _ => .error ""
  | steps + 1, reader => do
      let (event, reader) ← nextStructural reader
      if event = .start "value" then
        let (item, reader) ← parseValue steps reader
        let (items, reader) ← parseData steps reader
        return (item :: items, reader)
      else if event = .finish "data" then return ([], reader)
      else
        throw s!"unexpected event inside <data>: {library.debugEvent event}"

/-- The members up to the end of `struct`. -/
def parseMembers : Nat → Reader →
    Except String (List (String × XmlValue) × Reader)
  | 0, _ => .error ""
  | steps + 1, reader => do
      let (event, reader) ← nextStructural reader
      if event = .start "member" then
        let reader ← expectStart library "name" reader
        let (name, reader) ← readElementText library "name" reader
        let reader ← expectStart library "value" reader
        let (value, reader) ← parseValue steps reader
        let reader ← expectEnd library "member" reader
        let (members, reader) ← parseMembers steps reader
        return ((name, value) :: members, reader)
      else if event = .finish "struct" then return ([], reader)
      else
        throw s!"unexpected event inside <struct>: {library.debugEvent event}"

end

def faultMessage : XmlValue → String
  | .struct members =>
    match members.findSome? fun
        | ("faultString", .str text) => some text
        | _ => none with
    | some text => text
    | none => library.debugValue (.struct members)
  | value => library.debugValue value

/-- `parse_response`.  What comes before the parameter or the fault is passed
over, whatever it is. -/
def parseResponse : Reader → Except String XmlValue
  | [] => .error "methodResponse had no <param> or <fault>"
  | .error err :: _ => .error err
  | .ok event :: reader =>
    if event = .start "fault" then do
      let reader ← expectStart library "value" reader
      let (value, _) ← parseValue library (reader.length + 1) reader
      throw (faultMessage library value)
    else if event = .start "param" then do
      let reader ← expectStart library "value" reader
      let (value, _) ← parseValue library (reader.length + 1) reader
      return value
    else if event = .eof then
      .error "methodResponse had no <param> or <fault>"
    else parseResponse reader

end Parsing

end XmlRpc

end Sharerr
