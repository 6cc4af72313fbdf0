import Sharerr.Xml.Reader

/-!
# The events of a document

A reader hands out a document as events, one after the other.  A text with
references or `CDATA` sections in it comes as several of them, and tags have
white space and comments between them.
-/

namespace Xml

/-- `quick_xml::events::Event`. -/
inductive Event where
  | start (name : String)
  | finish (name : String)
  /-- A tag that is its own end. -/
  | empty (name : String)
  | text (text : String)
  | cData (text : String)
  /-- What stands between `&` and `;`. -/
  | generalRef (name : String)
  | comment (text : String)
  | declaration (text : String)
  | instruction (text : String)
  | docType (text : String)
  | eof
deriving DecidableEq, Repr

/-- A piece of a text. -/
inductive Piece where
  | text (text : String)
  | cData (text : String)
  | reference (name : String) (character : Char)
      (stands : reference name.toList = some character)

namespace Piece

def event : Piece → Event
  | .text written => .text written
  | .cData written => .cData written
  | .reference name _ _ => .generalRef name

def shown : Piece → String
  | .text written => written
  | .cData written => written
  | .reference _ character _ => String.singleton character

end Piece

/-- The text that pieces make. -/
def shownText : List Piece → String
  | [] => ""
  | piece :: pieces => piece.shown ++ shownText pieces

def textEvents (pieces : List Piece) : List Event := pieces.map Piece.event

/-- An element of nothing but text. -/
inductive TextElement where
  | closed
  | written (pieces : List Piece)

namespace TextElement

def events (name : String) : TextElement → List Event
  | .closed => [.empty name]
  | .written pieces => .start name :: textEvents pieces ++ [.finish name]

def shown : TextElement → String
  | .closed => ""
  | .written pieces => shownText pieces

end TextElement

inductive Filler where
  | space (text : String)
      (blank : ∀ character ∈ text.toList, isSpace character = true)
  | comment (text : String)

namespace Filler

def event : Filler → Event
  | .space text _ => .text text
  | .comment text => .comment text

def isSpace : Filler → Bool
  | .space .. => true
  | .comment _ => false

end Filler

def fillerEvents (fillers : List Filler) : List Event :=
  fillers.map Filler.event

end Xml
