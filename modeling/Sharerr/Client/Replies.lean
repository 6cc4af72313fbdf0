import Sharerr.Client.XmlRpc

/-!
# Replies as they are written

A value can be written in many ways: its tags with white space and comments
between them, elements without content as one tag, and its strings bare or in an
element of their own and in several pieces.  A reply is a value written in some
way as its one parameter.
-/

namespace Sharerr

namespace XmlRpc

open Xml (Event Filler Piece TextElement fillerEvents shownText textEvents)

inductive IntTag where
  | i4
  | int
  | i8
deriving DecidableEq, Repr

def IntTag.name : IntTag → String
  | .i4 => "i4"
  | .int => "int"
  | .i8 => "i8"

mutual

/-- A `value` element. -/
inductive Element where
  | closed
  | opened (content : Content)

/-- What a `value` element is around. -/
inductive Content where
  | bare (pieces : List Piece)
  | string (before : List Filler) (text : TextElement) (after : List Filler)
  | integer (before : List Filler) (tag : IntTag) (pieces : List Piece)
      (number : Int) (written : Rust.IsInteger (shownText pieces) number)
      (after : List Filler)
  /-- An array whose `data` is one tag. -/
  | emptyArray (before inside outside after : List Filler)
  | array (before inside : List Filler) (items : Items)
      (outside after : List Filler)
  /-- A struct that is one tag. -/
  | emptyStruct (before after : List Filler)
  | struct (before : List Filler) (members : Members) (after : List Filler)

inductive Items where
  | done (before : List Filler)
  | item (before : List Filler) (element : Element) (items : Items)

inductive Members where
  | done (before : List Filler)
  | member (before inside : List Filler) (name : TextElement)
      (between : List Filler) (value : Element) (after : List Filler)
      (members : Members)

end

mutual

def Element.value : Element → XmlValue
  | .closed => .str ""
  | .opened content => content.value

def Content.value : Content → XmlValue
  | .bare pieces => .str (shownText pieces)
  | .string _ text _ => .str text.shown
  | .integer _ _ _ number _ _ => .int number
  | .emptyArray .. => .array []
  | .array _ _ items _ _ => .array items.values
  | .emptyStruct .. => .struct []
  | .struct _ members _ => .struct members.values

def Items.values : Items → List XmlValue
  | .done _ => []
  | .item _ element items => element.value :: items.values

def Members.values : Members → List (String × XmlValue)
  | .done _ => []
  | .member _ _ name _ value _ members =>
    (name.shown, value.value) :: members.values

end

mutual

def Element.events : Element → List Event
  | .closed => [.empty "value"]
  | .opened content => .start "value" :: content.events

/-- Up to the end of the `value` element. -/
def Content.events : Content → List Event
  | .bare pieces => textEvents pieces ++ [.finish "value"]
  | .string before text after =>
    fillerEvents before ++ text.events "string" ++ fillerEvents after ++
      [.finish "value"]
  | .integer before tag pieces _ _ after =>
    fillerEvents before ++ .start tag.name :: textEvents pieces ++
      .finish tag.name :: fillerEvents after ++ [.finish "value"]
  | .emptyArray before inside outside after =>
    fillerEvents before ++ .start "array" :: fillerEvents inside ++
      .empty "data" :: fillerEvents outside ++
      .finish "array" :: fillerEvents after ++ [.finish "value"]
  | .array before inside items outside after =>
    fillerEvents before ++ .start "array" :: fillerEvents inside ++
      .start "data" :: items.events ++
      .finish "data" :: fillerEvents outside ++
      .finish "array" :: fillerEvents after ++ [.finish "value"]
  | .emptyStruct before after =>
    fillerEvents before ++ .empty "struct" :: fillerEvents after ++
      [.finish "value"]
  | .struct before members after =>
    fillerEvents before ++ .start "struct" :: members.events ++
      .finish "struct" :: fillerEvents after ++ [.finish "value"]

/-- Up to the end of `data`. -/
def Items.events : Items → List Event
  | .done before => fillerEvents before
  | .item before element items =>
    fillerEvents before ++ element.events ++ items.events

/-- Up to the end of `struct`. -/
def Members.events : Members → List Event
  | .done before => fillerEvents before
  | .member before inside name between value after members =>
    fillerEvents before ++ .start "member" :: fillerEvents inside ++
      name.events "name" ++ fillerEvents between ++ value.events ++
      fillerEvents after ++ .finish "member" :: members.events

end

/-- Nothing but white space. -/
def isSpace (fillers : List Filler) : Bool := fillers.all Filler.isSpace

def isWritten : TextElement → Bool
  | .closed => false
  | .written _ => true

/-- A bare text that begins with neither a `CDATA` section nor a piece of white
space only. -/
def startsPlain : List Piece → Bool
  | .cData _ :: _ => false
  | .text text :: _ => !text.toList.all isAsciiWhitespace
  | _ => true

mutual

def Element.isPlain : Element → Bool
  | .closed => false
  | .opened content => content.isPlain

def Content.isPlain : Content → Bool
  | .bare pieces => startsPlain pieces
  | .string before text after =>
    isSpace before && isWritten text && isSpace after
  | .integer before _ _ _ _ after => isSpace before && isSpace after
  | .emptyArray before inside outside after =>
    isSpace before && isSpace inside && isSpace outside && isSpace after
  | .array before inside items outside after =>
    isSpace before && isSpace inside && items.isPlain &&
      isSpace outside && isSpace after
  | .emptyStruct .. => false
  | .struct before members after =>
    isSpace before && members.isPlain && isSpace after

def Items.isPlain : Items → Bool
  | .done before => isSpace before
  | .item before element items =>
    isSpace before && element.isPlain && items.isPlain

def Members.isPlain : Members → Bool
  | .done before => isSpace before
  | .member before inside name between value after members =>
    isSpace before && isSpace inside && isWritten name &&
      isSpace between && value.isPlain && isSpace after && members.isPlain

end

/-- A `methodResponse` of one parameter. -/
structure Reply where
  declaration : Option String
  before : List Filler
  opened : List Filler
  params : List Filler
  param : List Filler
  value : Element
  closing : List Filler
  closed : List Filler
  after : List Filler
  last : List Filler

namespace Reply

def events (reply : Reply) : List Event :=
  reply.declaration.toList.map Event.declaration ++
    fillerEvents reply.before ++ .start "methodResponse" ::
    fillerEvents reply.opened ++ .start "params" ::
    fillerEvents reply.params ++ .start "param" ::
    fillerEvents reply.param ++ reply.value.events ++
    fillerEvents reply.closing ++ .finish "param" ::
    fillerEvents reply.closed ++ .finish "params" ::
    fillerEvents reply.after ++ .finish "methodResponse" ::
    fillerEvents reply.last

def isPlain (reply : Reply) : Bool :=
  isSpace reply.param && reply.value.isPlain

end Reply

/-- References to the five entities and to characters are resolved as XML has
them. -/
structure Library.Resolves (library : Library) : Prop where
  number : ∀ digits character,
    Xml.reference ('#' :: digits) = some character →
      library.resolveCharRef (String.ofList ('#' :: digits)) =
        .ok (some character)
  entity : ∀ name character, Xml.reference name = some character →
    name.head? ≠ some '#' →
      library.resolveCharRef (String.ofList name) = .ok none ∧
        library.resolveXmlEntity (String.ofList name) =
          some (String.singleton character)

def readerOf (events : List Event) : Reader := events.map .ok

@[simp] theorem readerOf_nil : readerOf [] = [] := rfl

@[simp] theorem readerOf_cons (event : Event) (events : List Event) :
    readerOf (event :: events) = .ok event :: readerOf events := rfl

@[simp] theorem readerOf_append (events others : List Event) :
    readerOf (events ++ others) = readerOf events ++ readerOf others :=
  List.map_append

section Reading

variable {library : Library}

variable {text tag : String} {event : Event}
  {fillers after before inside outside : List Filler} {pieces : List Piece}
  {rest : Reader} {steps : Nat} {value : XmlValue} {items : List XmlValue}
  {reply : Reply}

theorem all_isAsciiWhitespace
    (blank : ∀ character ∈ text.toList, Xml.isSpace character = true) :
    text.toList.all isAsciiWhitespace = true := by
  rw [List.all_eq_true]
  intro character member
  rw [isAsciiWhitespace, Bool.or_eq_true]
  exact .inl (blank character member)

theorem nextStructural_fillers (space : isSpace fillers = true)
    (noText : ∀ text, event ≠ .text text) (rest : Reader) :
    nextStructural (readerOf (fillerEvents fillers) ++ .ok event :: rest) =
      .ok (event, rest) := by
  induction fillers with
  | nil =>
    cases event with
    | text written => exact absurd rfl (noText written)
    | _ => rfl
  | cons filler fillers ih =>
    have ⟨first, later⟩ := Bool.and_eq_true_iff.mp space
    cases filler with
    | comment text => cases first
    | space text blank =>
      change (if text.toList.all isAsciiWhitespace then nextStructural _
        else _) = _
      rw [if_pos (all_isAsciiWhitespace blank)]
      exact ih later

theorem expectStart_fillers (space : isSpace fillers = true) (rest : Reader) :
    expectStart library tag
      (readerOf (fillerEvents fillers) ++ .ok (.start tag) :: rest) =
        .ok rest := by
  rw [expectStart, nextStructural_fillers space (by nofun)]
  change (if Event.start tag = .start tag then _ else _) = _
  rw [if_pos rfl]
  rfl

theorem expectEnd_fillers (space : isSpace fillers = true) (rest : Reader) :
    expectEnd library tag
      (readerOf (fillerEvents fillers) ++ .ok (.finish tag) :: rest) =
        .ok rest := by
  rw [expectEnd, nextStructural_fillers space (by nofun)]
  change (if Event.finish tag = .finish tag then _ else _) = _
  rw [if_pos rfl]
  rfl

theorem pushGeneralRef_of_stands (resolves : library.Resolves)
    {name : String} {character : Char}
    (stands : Xml.reference name.toList = some character) (text : String) :
    pushGeneralRef library name text =
      .ok (text ++ String.singleton character) := by
  by_cases numbered : name.toList.head? = some '#'
  · obtain ⟨digits, split⟩ := List.head?_eq_some_iff.mp numbered
    rw [split] at stands
    have resolved := resolves.number digits character stands
    rw [← split, String.ofList_toList] at resolved
    rw [pushGeneralRef, resolved]
    exact congrArg Except.ok (String.push_eq_append character)
  · obtain ⟨unnumbered, resolved⟩ := resolves.entity _ character stands
      numbered
    rw [String.ofList_toList] at unnumbered resolved
    simp only [pushGeneralRef, unnumbered, bind, Except.bind, resolved]
    rfl

/-- The pieces of a text up to its closing tag are put together. -/
theorem readTextUntilEnd_pieces (resolves : library.Resolves)
    (tag text : String) (pieces : List Piece) (rest : Reader) :
    readTextUntilEnd library tag text
      (readerOf (textEvents pieces) ++ .ok (.finish tag) :: rest) =
        .ok (text ++ shownText pieces, rest) := by
  induction pieces generalizing text with
  | nil =>
    change (if Event.finish tag = .finish tag then _ else _) = _
    rw [if_pos rfl, shownText, String.append_empty]
  | cons piece pieces ih =>
    rw [shownText, ← String.append_assoc]
    cases piece with
    | text more => exact ih (text ++ more)
    | cData more => exact ih (text ++ more)
    | reference name character stands =>
      change (pushGeneralRef library name text >>= fun text => _) = _
      rw [pushGeneralRef_of_stands resolves stands]
      exact ih (text ++ String.singleton character)

theorem readElementText_pieces (resolves : library.Resolves) (tag : String)
    (pieces : List Piece) (rest : Reader) :
    readElementText library tag
      (readerOf (textEvents pieces) ++ .ok (.finish tag) :: rest) =
        .ok (shownText pieces, rest) := by
  rw [readElementText, readTextUntilEnd_pieces resolves, String.empty_append]

theorem parseTyped_integer (resolves : library.Resolves)
    (parseArray : Reader → Except String (XmlValue × Reader))
    (parseMembers : Reader → Except String (List (String × XmlValue) × Reader))
    (tag : IntTag) {number : Int}
    (written : Rust.IsInteger (shownText pieces) number) (rest : Reader) :
    parseTyped library parseArray parseMembers tag.name
      (readerOf (textEvents pieces) ++ .ok (.finish tag.name) :: rest) =
        .ok (.int number, rest) := by
  have integer : tag.name = "i4" ∨ tag.name = "int" ∨ tag.name = "i8" := by
    cases tag <;> decide
  have noArray : tag.name ≠ "array" := by cases tag <;> decide
  have noStruct : tag.name ≠ "struct" := by cases tag <;> decide
  have noString : tag.name ≠ "string" := by cases tag <;> decide
  rw [parseTyped, if_neg noArray, if_neg noStruct, if_neg noString,
    if_pos integer, readElementText_pieces resolves]
  simp only [bind, Except.bind, written.trim_eq, written.read]
  rfl

/-- A text that begins in the `value` element is all it holds. -/
theorem parseValue_bare (resolves : library.Resolves)
    (plain : startsPlain pieces = true) (steps : Nat) (rest : Reader) :
    parseValue library (steps + 1)
      (readerOf (textEvents pieces) ++ .ok (.finish "value") :: rest) =
        .ok (.str (shownText pieces), rest) := by
  cases pieces with
  | nil => rfl
  | cons piece pieces =>
    cases piece with
    | cData text => cases plain
    | text text =>
      have shown : ¬ text.toList.all isAsciiWhitespace = true := by
        simpa [startsPlain] using plain
      have next (reader : Reader) :
          nextStructural (.ok (.text text) :: reader) =
            .ok (.text text, reader) := by
        change (if text.toList.all isAsciiWhitespace then _ else _) = _
        rw [if_neg shown]
      change parseValue library (steps + 1) (.ok (.text text) ::
        (readerOf (textEvents pieces) ++ _)) = _
      rw [parseValue, next]
      change (readTextUntilEnd library "value" text _ >>= fun _ => _) = _
      rw [readTextUntilEnd_pieces resolves]
      rfl
    | reference name character stands =>
      change (pushGeneralRef library name "" >>= fun text =>
        readTextUntilEnd library "value" text
          (readerOf (textEvents pieces) ++ _) >>= fun _ => _) = _
      rw [pushGeneralRef_of_stands resolves stands, String.empty_append]
      change (readTextUntilEnd library "value" _ _ >>= fun _ => _) = _
      rw [readTextUntilEnd_pieces resolves]
      rfl

/-- An element of a type stands between two pieces of white space. -/
theorem parseValue_typed {inside : Reader} (spaceBefore : isSpace before = true)
    (spaceAfter : isSpace after = true)
    (typed : parseTyped library (parseArray library steps)
      (parseMembers library steps) tag inside =
        .ok (value, readerOf (fillerEvents after) ++
          .ok (.finish "value") :: rest)) :
    parseValue library (steps + 1)
      (readerOf (fillerEvents before) ++ .ok (.start tag) :: inside) =
        .ok (value, rest) := by
  have next : nextStructural
      (readerOf (fillerEvents before) ++ .ok (.start tag) :: inside) =
        .ok (.start tag, inside) :=
    nextStructural_fillers spaceBefore (by nofun) inside
  rw [parseValue, next]
  change (parseTyped library _ _ tag inside >>= fun _ => _) = _
  rw [typed]
  change (expectEnd library "value" _ >>= fun _ => _) = _
  rw [expectEnd_fillers spaceAfter]
  rfl

theorem parseArray_empty (steps : Nat) (spaceInside : isSpace inside = true)
    (spaceOutside : isSpace outside = true) (rest : Reader) :
    parseArray library (steps + 1)
      (readerOf (fillerEvents inside) ++ .ok (.empty "data") ::
        (readerOf (fillerEvents outside) ++ .ok (.finish "array") :: rest)) =
        .ok (.array [], rest) := by
  have next (reader : Reader) : nextStructural
      (readerOf (fillerEvents inside) ++ .ok (.empty "data") :: reader) =
        .ok (.empty "data", reader) :=
    nextStructural_fillers spaceInside (by nofun) reader
  rw [parseArray, next]
  change (expectEnd library "array" _ >>= fun _ => _) = _
  rw [expectEnd_fillers spaceOutside]
  rfl

theorem parseArray_data {data : Reader} (spaceInside : isSpace inside = true)
    (spaceOutside : isSpace outside = true)
    (parsed : parseData library steps data = .ok (items,
      readerOf (fillerEvents outside) ++ .ok (.finish "array") :: rest)) :
    parseArray library (steps + 1)
      (readerOf (fillerEvents inside) ++ .ok (.start "data") :: data) =
        .ok (.array items, rest) := by
  have next : nextStructural
      (readerOf (fillerEvents inside) ++ .ok (.start "data") :: data) =
        .ok (.start "data", data) :=
    nextStructural_fillers spaceInside (by nofun) data
  rw [parseArray, next]
  change (parseData library steps data >>= fun _ => _) = _
  rw [parsed]
  change (expectEnd library "array" _ >>= fun _ => _) = _
  rw [expectEnd_fillers spaceOutside]
  rfl

theorem parseData_done (steps : Nat) (space : isSpace before = true)
    (rest : Reader) :
    parseData library (steps + 1)
      (readerOf (fillerEvents before) ++ .ok (.finish "data") :: rest) =
        .ok ([], rest) := by
  rw [parseData, nextStructural_fillers space (by nofun) rest]
  rfl

theorem parseData_item {inside after : Reader} {item : XmlValue}
    (space : isSpace before = true)
    (one : parseValue library steps inside = .ok (item, after))
    (more : parseData library steps after = .ok (items, rest)) :
    parseData library (steps + 1)
      (readerOf (fillerEvents before) ++ .ok (.start "value") :: inside) =
        .ok (item :: items, rest) := by
  have next : nextStructural
      (readerOf (fillerEvents before) ++ .ok (.start "value") :: inside) =
        .ok (.start "value", inside) :=
    nextStructural_fillers space (by nofun) inside
  rw [parseData, next]
  change (parseValue library steps inside >>= fun _ => _) = _
  rw [one]
  change (parseData library steps after >>= fun _ => _) = _
  rw [more]
  rfl

theorem parseMembers_done (steps : Nat) (space : isSpace before = true)
    (rest : Reader) :
    parseMembers library (steps + 1)
      (readerOf (fillerEvents before) ++ .ok (.finish "struct") :: rest) =
        .ok ([], rest) := by
  rw [parseMembers, nextStructural_fillers space (by nofun) rest]
  rfl

theorem parseMembers_member (resolves : library.Resolves)
    {between : List Filler} {valued closing : Reader}
    {members : List (String × XmlValue)} (spaceBefore : isSpace before = true)
    (spaceInside : isSpace inside = true)
    (spaceBetween : isSpace between = true) (spaceAfter : isSpace after = true)
    (one : parseValue library steps valued = .ok (value,
      readerOf (fillerEvents after) ++ .ok (.finish "member") :: closing))
    (more : parseMembers library steps closing = .ok (members, rest)) :
    parseMembers library (steps + 1)
      (readerOf (fillerEvents before) ++ .ok (.start "member") ::
        (readerOf (fillerEvents inside) ++ .ok (.start "name") ::
          (readerOf (textEvents pieces) ++ .ok (.finish "name") ::
            (readerOf (fillerEvents between) ++ .ok (.start "value") ::
              valued)))) =
        .ok ((shownText pieces, value) :: members, rest) := by
  have next (reader : Reader) : nextStructural
      (readerOf (fillerEvents before) ++ .ok (.start "member") :: reader) =
        .ok (.start "member", reader) :=
    nextStructural_fillers spaceBefore (by nofun) reader
  rw [parseMembers, next]
  change (expectStart library "name" _ >>= fun _ => _) = _
  rw [expectStart_fillers spaceInside]
  change (readElementText library "name" _ >>= fun _ => _) = _
  rw [readElementText_pieces resolves]
  change (expectStart library "value" _ >>= fun _ => _) = _
  rw [expectStart_fillers spaceBetween]
  change (parseValue library steps valued >>= fun _ => _) = _
  rw [one]
  change (expectEnd library "member" _ >>= fun _ => _) = _
  rw [expectEnd_fillers spaceAfter]
  change (parseMembers library steps closing >>= fun _ => _) = _
  rw [more]
  rfl

theorem exists_step {few : Nat} (enough : few < steps) :
    ∃ more, steps = more + 1 :=
  ⟨steps - 1, by omega⟩

theorem Element.length_events_pos (element : Element) :
    0 < element.events.length := by
  cases element with
  | closed => exact Nat.one_pos
  | opened content =>
    rw [Element.events]
    exact Nat.succ_pos _

mutual

theorem Element.parse (resolves : library.Resolves) {steps : Nat} :
    (element : Element) → element.isPlain = true →
      element.events.length ≤ steps → ∀ rest : Reader, ∃ inside,
        readerOf element.events ++ rest = .ok (.start "value") :: inside ∧
          parseValue library steps inside = .ok (element.value, rest)
  | .closed, plain, _, _ => by cases plain
  | .opened content, plain, enough, rest => by
      rw [Element.events, List.length_cons] at enough
      exact ⟨_, rfl, Content.parse resolves content plain enough rest⟩

theorem Content.parse (resolves : library.Resolves) {steps : Nat} :
    (content : Content) → content.isPlain = true →
      content.events.length < steps → ∀ rest : Reader,
        parseValue library steps (readerOf content.events ++ rest) =
          .ok (content.value, rest)
  | .bare pieces, plain, enough, rest => by
      obtain ⟨steps, rfl⟩ := exists_step enough
      rw [Content.events, readerOf_append, List.append_assoc]
      exact parseValue_bare resolves plain steps rest
  | .string before text after, plain, enough, rest => by
      obtain ⟨steps, rfl⟩ := exists_step enough
      simp only [Content.isPlain, Bool.and_eq_true] at plain
      obtain ⟨⟨spaceBefore, isWritten⟩, spaceAfter⟩ := plain
      cases text with
      | closed => cases isWritten
      | written pieces =>
        simp only [Content.events, TextElement.events, readerOf_append,
          readerOf_cons, readerOf_nil, List.append_assoc, List.cons_append,
          List.nil_append]
        refine parseValue_typed spaceBefore spaceAfter ?_
        change (readElementText library "string" _ >>= fun _ => _) = _
        rw [readElementText_pieces resolves]
        rfl
  | .integer before tag pieces number written after, plain, enough, rest => by
      obtain ⟨steps, rfl⟩ := exists_step enough
      simp only [Content.isPlain, Bool.and_eq_true] at plain
      simp only [Content.events, readerOf_append, readerOf_cons, readerOf_nil,
        List.append_assoc, List.cons_append, List.nil_append]
      exact parseValue_typed plain.1 plain.2
        (parseTyped_integer resolves _ _ tag written _)
  | .emptyArray before inside outside after, plain, enough, rest => by
      simp only [Content.isPlain, Bool.and_eq_true] at plain
      obtain ⟨⟨⟨spaceBefore, spaceInside⟩, spaceOutside⟩, spaceAfter⟩ := plain
      simp only [Content.events, List.length_append, List.length_cons]
        at enough
      obtain ⟨steps, rfl⟩ : ∃ more, steps = more + 2 := ⟨steps - 2, by omega⟩
      simp only [Content.events, readerOf_append, readerOf_cons, readerOf_nil,
        List.append_assoc, List.cons_append, List.nil_append]
      exact parseValue_typed spaceBefore spaceAfter
        (parseArray_empty steps spaceInside spaceOutside _)
  | .array before inside items outside after, plain, enough, rest => by
      simp only [Content.isPlain, Bool.and_eq_true] at plain
      obtain
        ⟨⟨⟨⟨spaceBefore, spaceInside⟩, plain⟩, spaceOutside⟩, spaceAfter⟩ :=
        plain
      simp only [Content.events, List.length_append, List.length_cons]
        at enough
      obtain ⟨steps, rfl⟩ : ∃ more, steps = more + 2 := ⟨steps - 2, by omega⟩
      simp only [Content.events, readerOf_append, readerOf_cons, readerOf_nil,
        List.append_assoc, List.cons_append, List.nil_append]
      refine parseValue_typed spaceBefore spaceAfter ?_
      refine parseArray_data spaceInside spaceOutside ?_
      exact Items.parse resolves items plain (by omega) _
  | .emptyStruct before after, plain, _, _ => by cases plain
  | .struct before members after, plain, enough, rest => by
      simp only [Content.isPlain, Bool.and_eq_true] at plain
      obtain ⟨⟨spaceBefore, plain⟩, spaceAfter⟩ := plain
      simp only [Content.events, List.length_append, List.length_cons]
        at enough
      obtain ⟨steps, rfl⟩ : ∃ more, steps = more + 1 := ⟨steps - 1, by omega⟩
      simp only [Content.events, readerOf_append, readerOf_cons, readerOf_nil,
        List.append_assoc, List.cons_append, List.nil_append]
      refine parseValue_typed spaceBefore spaceAfter ?_
      change (parseMembers library steps _ >>= fun _ => _) = _
      rw [Members.parse resolves members plain (by omega)]
      rfl

theorem Items.parse (resolves : library.Resolves) {steps : Nat} :
    (items : Items) → items.isPlain = true → items.events.length < steps →
      ∀ rest : Reader,
        parseData library steps
          (readerOf items.events ++ .ok (.finish "data") :: rest) =
            .ok (items.values, rest)
  | .done before, plain, enough, rest => by
      obtain ⟨steps, rfl⟩ := exists_step enough
      exact parseData_done steps plain rest
  | .item before element items, plain, enough, rest => by
      simp only [Items.isPlain, Bool.and_eq_true] at plain
      obtain ⟨⟨space, plainElement⟩, plainItems⟩ := plain
      obtain ⟨steps, rfl⟩ := exists_step enough
      simp only [Items.events, List.length_append] at enough
      have begins := element.length_events_pos
      obtain ⟨inside, opens, one⟩ := Element.parse resolves element
        plainElement (show element.events.length ≤ steps by omega)
        (readerOf items.events ++ .ok (.finish "data") :: rest)
      rw [Items.events, readerOf_append, readerOf_append, List.append_assoc,
        List.append_assoc, opens]
      exact parseData_item space one
        (Items.parse resolves items plainItems (by omega) rest)

theorem Members.parse (resolves : library.Resolves) {steps : Nat} :
    (members : Members) → members.isPlain = true →
      members.events.length < steps → ∀ rest : Reader,
        parseMembers library steps
          (readerOf members.events ++ .ok (.finish "struct") :: rest) =
            .ok (members.values, rest)
  | .done before, plain, enough, rest => by
      obtain ⟨steps, rfl⟩ := exists_step enough
      exact parseMembers_done steps plain rest
  | .member before inside name between value after members, plain, enough,
      rest => by
      simp only [Members.isPlain, Bool.and_eq_true] at plain
      obtain ⟨⟨⟨⟨⟨⟨spaceBefore, spaceInside⟩, isWritten⟩, spaceBetween⟩,
        plainValue⟩, spaceAfter⟩, plainMembers⟩ := plain
      obtain ⟨steps, rfl⟩ := exists_step enough
      simp only [Members.events, List.length_append, List.length_cons]
        at enough
      obtain ⟨inside, opens, one⟩ := Element.parse resolves value plainValue
        (show value.events.length ≤ steps by omega)
        (readerOf (fillerEvents after) ++ .ok (.finish "member") ::
          (readerOf members.events ++ .ok (.finish "struct") :: rest))
      cases name with
      | closed => cases isWritten
      | written pieces =>
        simp only [Members.events, TextElement.events, readerOf_append,
          readerOf_cons, List.append_assoc, List.cons_append,
          List.nil_append, opens]
        exact parseMembers_member resolves spaceBefore spaceInside
          spaceBetween spaceAfter one
          (Members.parse resolves members plainMembers (by omega) rest)

end

theorem parseResponse_skip (noFault : event ≠ .start "fault")
    (noParam : event ≠ .start "param") (more : event ≠ .eof) (reader : Reader) :
    parseResponse library (.ok event :: reader) =
      parseResponse library reader := by
  rw [parseResponse, if_neg noFault, if_neg noParam, if_neg more]

theorem parseResponse_fillers (fillers : List Filler) (reader : Reader) :
    parseResponse library (readerOf (fillerEvents fillers) ++ reader) =
      parseResponse library reader := by
  induction fillers with
  | nil => rfl
  | cons filler fillers ih =>
    have skip : parseResponse library (.ok filler.event ::
        (readerOf (fillerEvents fillers) ++ reader)) = _ :=
      parseResponse_skip (by cases filler <;> nofun)
        (by cases filler <;> nofun) (by cases filler <;> nofun) _
    exact skip.trans ih

theorem parseResponse_declaration (declaration : Option String)
    (reader : Reader) :
    parseResponse library
      (readerOf (declaration.toList.map Event.declaration) ++ reader) =
        parseResponse library reader := by
  cases declaration with
  | none => rfl
  | some text =>
    have skip : parseResponse library
        (.ok (.declaration text) :: reader) = _ :=
      parseResponse_skip (by nofun) (by nofun) (by nofun) reader
    exact skip

theorem parseResponse_param (space : isSpace fillers = true) (inside : Reader) :
    parseResponse library (.ok (.start "param") ::
      (readerOf (fillerEvents fillers) ++ .ok (.start "value") :: inside)) =
        (parseValue library (inside.length + 1) inside).map (·.1) := by
  have noFault : Event.start "param" ≠ .start "fault" := by decide
  rw [parseResponse, if_neg noFault, if_pos rfl]
  change (expectStart library "value" _ >>= fun _ => _) = _
  rw [expectStart_fillers space]
  change (parseValue library (inside.length + 1) inside >>= fun _ => _) = _
  cases parseValue library (inside.length + 1) inside with
  | error err => rfl
  | ok parsed => rfl

theorem parseResponse_reply (library : Library) (reply : Reply) :
    ∃ rest : Reader,
    parseResponse library (readerOf reply.events) =
      parseResponse library (.ok (.start "param") ::
        (readerOf (fillerEvents reply.param) ++
          (readerOf reply.value.events ++ rest))) := by
  simp only [Reply.events, readerOf_append, readerOf_cons, List.append_assoc,
    List.cons_append]
  rw [parseResponse_declaration, parseResponse_fillers,
    parseResponse_skip (by decide) (by decide) (by decide),
    parseResponse_fillers,
    parseResponse_skip (by decide) (by decide) (by decide),
    parseResponse_fillers]
  exact ⟨_, rfl⟩

theorem Reply.parse (resolves : library.Resolves) {reply : Reply}
    (plain : reply.isPlain = true) :
    parseResponse library (readerOf reply.events) =
      .ok reply.value.value := by
  have ⟨space, plain⟩ := Bool.and_eq_true_iff.mp plain
  obtain ⟨rest, whole⟩ := parseResponse_reply library reply
  cases element : reply.value with
  | closed =>
    rw [element] at plain
    cases plain
  | opened content =>
    rw [element] at plain whole
    rw [whole, Element.events, readerOf_cons, List.cons_append,
      parseResponse_param space,
      Content.parse resolves content plain (by
        simp only [readerOf, List.length_append, List.length_map]
        omega)]
    rfl

/-- A bare text that begins with a `CDATA` section is refused. -/
theorem Reply.refused (space : isSpace reply.param = true)
    (bare : reply.value = .opened (.bare (.cData text :: pieces))) :
    parseResponse library (readerOf reply.events) =
      .error ("unexpected event inside <value>: " ++
        library.debugEvent (.cData text)) := by
  obtain ⟨rest, whole⟩ := parseResponse_reply library reply
  rw [bare] at whole
  rw [whole, Element.events, readerOf_cons, List.cons_append,
    parseResponse_param space]
  rfl

end Reading

/-- A reply is read as the value that was written, where no element but `data`
is one tag that has an end, only white space stands between the tags from the
parameter on, and a bare text begins with neither a `CDATA` section nor a piece
of white space only.  One that begins with a `CDATA` section is refused. -/
theorem parseResponse_reads (library : Library)
    (resolves : library.Resolves) :
    (∀ reply : Reply, reply.isPlain = true →
      parseResponse library (readerOf reply.events) =
        .ok reply.value.value) ∧
    ∀ (reply : Reply) (text : String) (pieces : List Piece),
      isSpace reply.param = true →
      reply.value = .opened (.bare (.cData text :: pieces)) →
        parseResponse library (readerOf reply.events) =
          .error ("unexpected event inside <value>: " ++
            library.debugEvent (.cData text)) := by
  constructor
  · intro reply plain
    exact Reply.parse resolves plain
  · intro reply text pieces space bare
    exact Reply.refused space bare

/-- References as XML has them. -/
def xmlLibrary : Library where
  resolveCharRef name :=
    match name.toList with
    | '#' :: digits =>
      match Xml.reference ('#' :: digits) with
      | some character => .ok (some character)
      | none => .error "invalid character reference"
    | _ => .ok none
  resolveXmlEntity name := (Xml.reference name.toList).map String.singleton
  debugEvent _ := "event"
  debugText text := text
  debugValue _ := "value"

theorem xmlLibrary_resolves : xmlLibrary.Resolves where
  number digits character stands := by
    simp only [xmlLibrary, String.toList_ofList, stands]
  entity name character stands unnumbered := by
    simp only [xmlLibrary, String.toList_ofList, stands, Option.map_some,
      and_true]
    split
    case h_1 => exact absurd rfl unnumbered
    case h_2 => rfl

def replyOf (value : Element) : Reply :=
  ⟨none, [], [], [], [], value, [], [], [], []⟩

theorem listed_name_read : parseResponse xmlLibrary (readerOf (replyOf
    (.opened (.array [] [] (.item [] (.opened (.string []
      (.written [.text "Tom ", .reference "amp" '&' rfl, .text " Jerry"])
      [])) (.done [])) [] []))).events) =
        .ok (.array [.str "Tom & Jerry"]) :=
  (parseResponse_reads xmlLibrary xmlLibrary_resolves).1 _ rfl

/-- The value is not what a reply with nothing around it is read as. -/
def Misread (value : Element) : Prop :=
  parseResponse xmlLibrary (readerOf (replyOf value).events) ≠
    .ok value.value

/-- A text, a name or a struct that is one tag and a comment between tags fail
the reply, as does a bare text that begins with a `CDATA` section; one that
begins with white space loses it. -/
theorem other_spellings_misread :
    Misread .closed ∧ Misread (.opened (.string [] .closed [])) ∧
      Misread (.opened (.emptyStruct [] [])) ∧
      Misread (.opened (.struct [] (.member [] [] .closed []
        (.opened (.bare [])) [] (.done [])) [])) ∧
      Misread (.opened (.string [.comment "c"] (.written []) [])) ∧
      Misread (.opened (.bare [.cData "x"])) ∧
      Misread (.opened (.bare [.text "  "])) ∧
      Misread (.opened (.bare [.text " ", .reference "amp" '&' rfl])) := by
  have altered {text other : String} (differs : text ≠ other) :
      (.ok (.str text) : Except String XmlValue) ≠ .ok (.str other) :=
    fun same => differs (XmlValue.str.inj (Except.ok.inj same))
  refine ⟨nofun, nofun, nofun, nofun, nofun, nofun, ?_, ?_⟩
  · exact altered (by decide : "" ≠ "  ")
  · exact altered (by decide : "&" ≠ " &")

end XmlRpc

end Sharerr
