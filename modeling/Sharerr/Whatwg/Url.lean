import Mathlib.Data.List.TakeWhile

/-!
# URLs of the web

The URL standard's parser for `http` and `https`.  A path is read segment by
segment: `.` is left out, `..` takes one back, and what may not stand in a path
is percent-encoded.  The parser of hosts is not modelled: it makes an authority
into its normal form, or refuses it.  White space, which the parser drops, does
not stand in the texts here.
-/

namespace Whatwg

/-- A text, by its characters. -/
abbrev Text := List Char

def isSlash (character : Char) : Bool := character = '/' || character = '\\'

def endsPath (character : Char) : Bool := character = '?' || character = '#'

def isDelimiter (character : Char) : Bool :=
  isSlash character || endsPath character

/-- The path percent-encode set. -/
def inPathSet (character : Char) : Bool :=
  character.val < 0x21 || 0x7e < character.val ||
    "\"#<>?^`\x7b\x7d".toList.contains character

def hexDigit (digit : Nat) : Char := "0123456789ABCDEF".toList.getD digit '0'

def percentEncodeByte (byte : UInt8) : Text :=
  ['%', hexDigit (byte.toNat / 16), hexDigit (byte.toNat % 16)]

def percentEncode (inSet : Char → Bool) (text : Text) : Text :=
  text.flatMap fun character =>
    if inSet character then
      (String.utf8EncodeChar character).flatMap percentEncodeByte
    else [character]

/-- How many dots a text is, each written as such or percent-encoded; nothing
if it is more than dots. -/
def dots : Text → Option Nat
  | [] => some 0
  | '.' :: rest => (dots rest).map (· + 1)
  | '%' :: '2' :: 'e' :: rest => (dots rest).map (· + 1)
  | '%' :: '2' :: 'E' :: rest => (dots rest).map (· + 1)
  | _ => none

def isSingleDot (segment : Text) : Bool := decide (dots segment = some 1)

def isDoubleDot (segment : Text) : Bool := decide (dots segment = some 2)

/-- A text cut at its slashes. -/
def segmentsOf : Text → List Text
  | [] => [[]]
  | character :: rest =>
    if isSlash character then [] :: segmentsOf rest
    else
      match segmentsOf rest with
      | [] => [[character]]
      | segment :: segments => (character :: segment) :: segments

/-- The path state, after the segments of `path`. -/
def pathState (path : List Text) : List Text → List Text
  | [] => path
  | [last] =>
    if isDoubleDot last then path.dropLast ++ [[]]
    else if isSingleDot last then path ++ [[]]
    else path ++ [percentEncode inPathSet last]
  | segment :: segments =>
    if isDoubleDot segment then pathState path.dropLast segments
    else if isSingleDot segment then pathState path segments
    else pathState (path ++ [percentEncode inPathSet segment]) segments

inductive Scheme where
  | http
  | https
deriving DecidableEq, Repr

def Scheme.text : Scheme → Text
  | .http => "http".toList
  | .https => "https".toList

def schemeOf (name : Text) : Option Scheme :=
  if name.map Char.toLower = Scheme.http.text then some .http
  else if name.map Char.toLower = Scheme.https.text then some .https
  else none

structure Url where
  scheme : Scheme
  authority : Text
  path : List Text
  query : Option Text
  fragment : Option Text
deriving DecidableEq, Repr

def pathText (path : List Text) : Text := path.flatMap ('/' :: ·)

/-- What comes after the path. -/
def suffixText (query fragment : Option Text) : Text :=
  (query.elim [] ('?' :: ·)) ++ fragment.elim [] ('#' :: ·)

/-- A URL as text. -/
def Url.text (url : Url) : Text :=
  url.scheme.text ++ "://".toList ++ url.authority ++ pathText url.path ++
    suffixText url.query url.fragment

def inFragmentSet (character : Char) : Bool :=
  character.val < 0x21 || 0x7e < character.val ||
    "\"<>`".toList.contains character

def inQuerySet (character : Char) : Bool :=
  character.val < 0x21 || 0x7e < character.val ||
    "\"#<>'".toList.contains character

def readQuery : Text → Option Text
  | '?' :: rest => some (percentEncode inQuerySet (rest.takeWhile (· ≠ '#')))
  | _ => none

def readFragment (text : Text) : Option Text :=
  match text.dropWhile (· ≠ '#') with
  | _ :: rest => some (percentEncode inFragmentSet rest)
  | [] => none

/-- The path's text, without the slash in front. -/
def pathStart : Text → Text
  | [] => []
  | character :: rest => if isSlash character then rest else character :: rest

/-- A special URL, whose slashes may be of either sort and number. -/
def parse (hosts : Text → Option Text) (text : Text) : Option Url := do
  let scheme ← schemeOf (text.takeWhile (· ≠ ':'))
  let rest := ((text.dropWhile (· ≠ ':')).drop 1).dropWhile isSlash
  let authority ← hosts (rest.takeWhile fun character =>
    !isDelimiter character)
  let rest := rest.dropWhile fun character => !isDelimiter character
  let path := rest.takeWhile fun character => !endsPath character
  let rest := rest.dropWhile fun character => !endsPath character
  return {
    scheme
    authority
    path := pathState [] (segmentsOf (pathStart path))
    query := readQuery rest
    fragment := readFragment rest }

/-- A segment the parser leaves as it is. -/
structure Normal (segment : Text) : Prop where
  plain : ∀ character ∈ segment, isDelimiter character = false
  encoded : percentEncode inPathSet segment = segment
  single : isSingleDot segment = false
  double : isDoubleDot segment = false

section Path

variable {segment rest : Text} {path segments : List Text}

theorem segmentsOf_ne_nil (text : Text) : segmentsOf text ≠ [] := by
  cases text with
  | nil => simp [segmentsOf]
  | cons character rest =>
    rw [segmentsOf]
    split
    · simp
    · split <;> simp

theorem segmentsOf_plain
    (plain : ∀ character ∈ segment, isSlash character = false) :
    segmentsOf segment = [segment] := by
  induction segment with
  | nil => rfl
  | cons character segment ih =>
    obtain ⟨first, later⟩ := List.forall_mem_cons.mp plain
    rw [segmentsOf, ih later]
    simp [first]

theorem segmentsOf_append
    (plain : ∀ character ∈ segment, isSlash character = false) :
    segmentsOf (segment ++ '/' :: rest) = segment :: segmentsOf rest := by
  induction segment with
  | nil =>
    rw [List.nil_append, segmentsOf]
    rfl
  | cons character segment ih =>
    obtain ⟨first, later⟩ := List.forall_mem_cons.mp plain
    rw [List.cons_append, segmentsOf, ih later]
    simp [first]

/-- Segments written one after the other are read one by one. -/
theorem segmentsOf_pathText (nonempty : segments ≠ [])
    (plain : ∀ segment ∈ segments, ∀ character ∈ segment,
      isSlash character = false) :
    segmentsOf (pathStart (pathText segments)) = segments := by
  induction segments with
  | nil => exact absurd rfl nonempty
  | cons first others ih =>
    obtain ⟨here, later⟩ := List.forall_mem_cons.mp plain
    have start : pathStart (pathText (first :: others)) =
        first ++ pathText others := by
      rw [pathText, List.flatMap_cons]
      rfl
    rw [start]
    cases others with
    | nil =>
      have ended : pathText [] = [] := rfl
      rw [ended, List.append_nil]
      exact segmentsOf_plain here
    | cons second others =>
      have next : pathText (second :: others) =
          '/' :: pathStart (pathText (second :: others)) := by
        rw [pathText, List.flatMap_cons]
        rfl
      rw [next, segmentsOf_append here, ih (List.cons_ne_nil _ _) later]

theorem pathState_cons (normal : Normal segment) (more : segments ≠ []) :
    pathState path (segment :: segments) =
      pathState (path ++ [segment]) segments := by
  rw [pathState]
  · simp [normal.double, normal.single, normal.encoded]
  · exact more

theorem pathState_last (normal : Normal segment) :
    pathState path [segment] = path ++ [segment] := by
  simp [pathState, normal.double, normal.single, normal.encoded]

theorem pathState_concat (normal : ∀ segment ∈ segments, Normal segment)
    (last : Text) :
    pathState path (segments ++ [last]) = pathState (path ++ segments)
      [last] := by
  induction segments generalizing path with
  | nil => rw [List.nil_append, List.append_nil]
  | cons first others ih =>
    obtain ⟨here, later⟩ := List.forall_mem_cons.mp normal
    have more : others ++ [last] ≠ [] := by simp
    rw [List.cons_append, pathState_cons here more, ih later,
      List.append_assoc, List.singleton_append]

theorem pathState_normal (normal : ∀ segment ∈ segments, Normal segment) :
    pathState path segments = path ++ segments := by
  rcases List.eq_nil_or_concat segments with rfl | ⟨front, last, rfl⟩
  · rw [pathState, List.append_nil]
  · rw [List.concat_eq_append] at normal ⊢
    have front_ : ∀ segment ∈ front, Normal segment :=
      fun segment member => normal segment (List.mem_append_left _ member)
    rw [pathState_concat front_, pathState_last (normal last (by simp)),
      List.append_assoc]

end Path

section Parse

variable {hosts : Text → Option Text} {scheme : Scheme}
  {authority normal tail : Text} {segments : List Text}

theorem span_append (belongs : Char → Bool) (front rest : Text)
    (all : ∀ character ∈ front, belongs character = true)
    (stops : ∀ character ∈ rest.head?, belongs character = false) :
    (front ++ rest).takeWhile belongs = front ∧
      (front ++ rest).dropWhile belongs = rest := by
  have ended : rest.takeWhile belongs = [] ∧ rest.dropWhile belongs = rest := by
    cases rest with
    | nil => exact ⟨rfl, rfl⟩
    | cons character rest =>
      have stop := stops character rfl
      exact ⟨List.takeWhile_cons_of_neg (by simp [stop]),
        List.dropWhile_cons_of_neg (by simp [stop])⟩
  constructor
  · rw [List.takeWhile_append_of_pos all, ended.1, List.append_nil]
  · rw [List.dropWhile_append_of_pos all, ended.2]

theorem schemeOf_text (scheme : Scheme) :
    schemeOf scheme.text = some scheme := by
  cases scheme <;> decide

theorem scheme_text_plain (scheme : Scheme) :
    ∀ character ∈ scheme.text, decide (character ≠ ':') = true :=
  List.all_eq_true.mp (by cases scheme <;> decide)

/-- Where an authority stands that the parser of hosts accepts. -/
structure Bounded (authority : Text) : Prop where
  nonempty : authority ≠ []
  plain : ∀ character ∈ authority, isDelimiter character = false

/-- The path of a URL is read from what stands between the authority and the
query. -/
theorem parse_written (scheme : Scheme) (bounded : Bounded authority)
    (host : hosts authority = some normal) (nonempty : segments ≠ [])
    (plain : ∀ segment ∈ segments, ∀ character ∈ segment,
      isDelimiter character = false)
    (ends : ∀ character ∈ tail.head?, endsPath character = true) :
    ∃ query fragment,
      parse hosts (scheme.text ++ "://".toList ++ authority ++
          pathText segments ++ tail) =
        some ⟨scheme, normal, pathState [] segments, query, fragment⟩ := by
  obtain ⟨first, others, rfl⟩ := List.exists_cons_of_ne_nil nonempty
  have colon := span_append (fun character => decide (character ≠ ':')) _
    ("://".toList ++ (authority ++ (pathText (first :: others) ++ tail)))
    (scheme_text_plain scheme) (by simp)
  have slashes : ("//".toList ++ (authority ++ (pathText (first :: others) ++
      tail))).dropWhile isSlash =
        authority ++ (pathText (first :: others) ++ tail) := by
    obtain ⟨head, rest, rfl⟩ := List.exists_cons_of_ne_nil bounded.nonempty
    have begins := bounded.plain head List.mem_cons_self
    rw [isDelimiter, Bool.or_eq_false_iff] at begins
    refine (span_append _ _ _ (List.all_eq_true.mp (by decide)) ?_).2
    intro character found
    cases found
    exact begins.1
  have host_ := span_append (fun character => !isDelimiter character)
    authority (pathText (first :: others) ++ tail)
    (fun character member => by simp [bounded.plain character member])
    (by
      intro character found
      cases found
      rfl)
  have path := span_append (fun character => !endsPath character)
    (pathText (first :: others)) tail
    (by
      intro character member
      obtain ⟨segment, among, within⟩ := List.mem_flatMap.mp member
      rcases List.mem_cons.mp within with rfl | inside
      · rfl
      · have out := plain segment among character inside
        rw [isDelimiter, Bool.or_eq_false_iff] at out
        simp [out.2])
    (fun character found => by simp [ends character found])
  have slashFree : ∀ segment ∈ first :: others, ∀ character ∈ segment,
      isSlash character = false := by
    intro segment among character inside
    have out := plain segment among character inside
    rw [isDelimiter, Bool.or_eq_false_iff] at out
    exact out.1
  have whole : scheme.text ++ "://".toList ++ authority ++
      pathText (first :: others) ++ tail = scheme.text ++ ("://".toList ++
        (authority ++ (pathText (first :: others) ++ tail))) := by
    simp only [List.append_assoc]
  refine ⟨readQuery tail, readFragment tail, ?_⟩
  rw [parse, whole, colon.1, colon.2, schemeOf_text]
  have after : ("://".toList ++ (authority ++ (pathText (first :: others) ++
      tail))).drop 1 = "//".toList ++ (authority ++
        (pathText (first :: others) ++ tail)) := rfl
  simp only [bind, Option.bind, after, slashes, host_.1, host_.2, host,
    path.1, path.2, segmentsOf_pathText (List.cons_ne_nil first others)
      slashFree]
  rfl

end Parse

section Encoded

variable {character : Char} {segment : Text}

theorem hexDigit_eq : ∀ digit < 16,
    inPathSet (hexDigit digit) = false ∧
      isDelimiter (hexDigit digit) = false ∧
      (hexDigit digit = '2' → digit = 2) ∧ hexDigit digit ≠ 'e' ∧
      (hexDigit digit = 'E' → digit = 14) := by
  decide

theorem mem_percentEncodeByte {byte : UInt8}
    (member : character ∈ percentEncodeByte byte) :
    inPathSet character = false ∧ isDelimiter character = false := by
  have small : byte.toNat < 256 := byte.toNat_lt
  obtain ⟨high, high_, -⟩ := hexDigit_eq (byte.toNat / 16) (by omega)
  obtain ⟨low, low_, -⟩ := hexDigit_eq (byte.toNat % 16) (by omega)
  simp only [percentEncodeByte, List.mem_cons, List.not_mem_nil,
    or_false] at member
  rcases member with rfl | rfl | rfl
  · decide
  · exact ⟨high, high_⟩
  · exact ⟨low, low_⟩

/-- What is encoded consists of characters that may stand in a path. -/
theorem mem_percentEncode
    (plain : ∀ character ∈ segment, isDelimiter character = false)
    (member : character ∈ percentEncode inPathSet segment) :
    inPathSet character = false ∧ isDelimiter character = false := by
  obtain ⟨source, among, made⟩ := List.mem_flatMap.mp member
  split at made
  · obtain ⟨byte, -, here⟩ := List.mem_flatMap.mp made
    exact mem_percentEncodeByte here
  · next free =>
      rw [List.mem_singleton.mp made]
      exact ⟨by simpa using free, plain source among⟩

theorem percentEncode_of_free
    (free : ∀ character ∈ segment, inPathSet character = false) :
    percentEncode inPathSet segment = segment := by
  induction segment with
  | nil => rfl
  | cons first segment ih =>
    obtain ⟨here, later⟩ := List.forall_mem_cons.mp free
    rw [percentEncode, List.flatMap_cons, here]
    exact congrArg (first :: ·) (ih later)

theorem code_of_dots {text front rest : Text}
    (dotted : dots text ≠ none) (shape : text = front ++ '%' :: rest) :
    ∃ more, rest = '2' :: 'e' :: more ∨ rest = '2' :: 'E' :: more := by
  induction text using dots.induct generalizing front with
  | case1 => simp at shape
  | case2 text ih =>
    cases front with
    | nil => simp at shape
    | cons first front =>
      obtain ⟨-, tail⟩ := List.cons.inj shape
      exact ih (by simpa [dots] using dotted) tail
  | case3 text ih =>
    rcases front with _ | ⟨first, _ | ⟨second, _ | ⟨third, front⟩⟩⟩
    · simp only [List.nil_append, List.cons.injEq, true_and] at shape
      exact ⟨text, Or.inl shape.symm⟩
    · simp at shape
    · simp at shape
    · simp only [List.cons_append, List.cons.injEq] at shape
      exact ih (by simpa [dots] using dotted) shape.2.2.2
  | case4 text ih =>
    rcases front with _ | ⟨first, _ | ⟨second, _ | ⟨third, front⟩⟩⟩
    · simp only [List.nil_append, List.cons.injEq, true_and] at shape
      exact ⟨text, Or.inr shape.symm⟩
    · simp at shape
    · simp at shape
    · simp only [List.cons_append, List.cons.injEq] at shape
      exact ih (by simpa [dots] using dotted) shape.2.2.2
  | case5 text notEmpty notDot notSmall notLarge =>
    exact absurd (dots.eq_5 text notEmpty notDot notSmall notLarge) dotted

theorem eq_dot_of_utf8EncodeChar {bytes : List UInt8}
    (encoded : String.utf8EncodeChar character = 0x2e :: bytes) :
    character = '.' := by
  have first {value : Nat} {rest : List UInt8}
      (same : UInt8.ofNat value :: rest = 0x2e :: bytes) :
      value % 256 = 46 := by
    have bits := congrArg UInt8.toNat (List.cons.inj same).1
    rwa [UInt8.toNat_ofNat'] at bits
  unfold String.utf8EncodeChar at encoded
  dsimp only at encoded
  split at encoded
  · next ascii =>
      have code := first encoded
      apply Char.ext
      apply UInt32.toNat_inj.mp
      have value : ('.' : Char).val.toNat = 46 := rfl
      omega
  · split at encoded
    · have code := first encoded
      omega
    · split at encoded
      · have code := first encoded
        omega
      · have code := first encoded
        omega

theorem percentEncode_of_dots
    (dotted : dots (percentEncode inPathSet segment) ≠ none) :
    percentEncode inPathSet segment = segment := by
  apply percentEncode_of_free
  intro character member
  by_contra encoded
  rw [Bool.not_eq_false] at encoded
  obtain ⟨front, rest, rfl⟩ := List.append_of_mem member
  obtain ⟨byte, bytes, codes⟩ := List.exists_cons_of_ne_nil
    (String.utf8EncodeChar_ne_nil (c := character))
  have shape : percentEncode inPathSet (front ++ character :: rest) =
      percentEncode inPathSet front ++ '%' ::
        (hexDigit (byte.toNat / 16) :: hexDigit (byte.toNat % 16) ::
          (bytes.flatMap percentEncodeByte ++
            percentEncode inPathSet rest)) := by
    simp [percentEncode, encoded, codes, percentEncodeByte]
  have small : byte.toNat < 256 := byte.toNat_lt
  obtain ⟨-, -, high, -⟩ := hexDigit_eq (byte.toNat / 16) (by omega)
  obtain ⟨-, -, -, lower, low⟩ := hexDigit_eq (byte.toNat % 16) (by omega)
  obtain ⟨more, code⟩ := code_of_dots dotted shape
  simp only [List.cons.injEq] at code
  rcases code with ⟨-, other, -⟩ | ⟨two, last, -⟩
  · exact lower other
  · have dot : byte = 0x2e := by
      apply UInt8.toNat_inj.mp
      have upper := high two
      have lower_ := low last
      have value : (0x2e : UInt8).toNat = 46 := rfl
      omega
    rw [dot] at codes
    rw [eq_dot_of_utf8EncodeChar codes] at encoded
    exact absurd encoded (by decide)

theorem normal_percentEncode
    (plain : ∀ character ∈ segment, isDelimiter character = false)
    (single : isSingleDot segment = false)
    (double : isDoubleDot segment = false) :
    Normal (percentEncode inPathSet segment) := by
  have dotted {count : Nat} (not_ : dots segment ≠ some count) :
      decide (dots (percentEncode inPathSet segment) = some count) =
        false := by
    rw [decide_eq_false_iff_not]
    intro found
    rw [percentEncode_of_dots (by rw [found]; exact Option.some_ne_none _)]
      at found
    exact not_ found
  exact ⟨fun character member => (mem_percentEncode plain member).2,
    percentEncode_of_free fun character member =>
      (mem_percentEncode plain member).1,
    dotted (of_decide_eq_false single), dotted (of_decide_eq_false double)⟩

end Encoded

section Parsed

variable {path segments : List Text} {text : Text}

theorem normal_nil : Normal [] := by
  refine ⟨fun _ member => ?_, rfl, rfl, rfl⟩
  cases member

theorem normal_append_singleton {last : Text}
    (before : ∀ segment ∈ path, Normal segment) (normal : Normal last) :
    ∀ segment ∈ path ++ [last], Normal segment := by
  intro segment member
  rcases List.mem_append.mp member with old | new
  · exact before segment old
  · rw [List.mem_singleton.mp new]
    exact normal

/-- The segments of a path are normal, and there is one at least. -/
theorem pathState_spec (before : ∀ segment ∈ path, Normal segment)
    (plain : ∀ segment ∈ segments, ∀ character ∈ segment,
      isDelimiter character = false) :
    (∀ segment ∈ pathState path segments, Normal segment) ∧
      (segments ≠ [] → pathState path segments ≠ []) := by
  induction segments generalizing path with
  | nil => exact ⟨before, fun some_ => absurd rfl some_⟩
  | cons first others ih =>
    obtain ⟨here, later⟩ := List.forall_mem_cons.mp plain
    have shorter : ∀ segment ∈ path.dropLast, Normal segment :=
      fun segment member =>
        before segment ((List.dropLast_sublist path).subset member)
    cases others with
    | nil =>
      rw [pathState]
      split
      · exact ⟨normal_append_singleton shorter normal_nil, by simp⟩
      · split
        · exact ⟨normal_append_singleton before normal_nil, by simp⟩
        · next double single =>
            exact ⟨normal_append_singleton before (normal_percentEncode
              here (by simpa using single) (by simpa using double)),
              by simp⟩
    | cons second others =>
      have some_ : second :: others ≠ [] := List.cons_ne_nil _ _
      rw [pathState]
      · split
        · exact ⟨(ih shorter later).1,
            fun _ => (ih shorter later).2 some_⟩
        · split
          · exact ⟨(ih before later).1, fun _ => (ih before later).2 some_⟩
          · next double single =>
              have longer := normal_append_singleton before
                (normal_percentEncode here (by simpa using single)
                  (by simpa using double))
              exact ⟨(ih longer later).1,
                fun _ => (ih longer later).2 some_⟩
      · exact some_

theorem mem_segmentsOf {segment : Text} (member : segment ∈ segmentsOf text)
    {character : Char} (within : character ∈ segment) :
    character ∈ text ∧ isSlash character = false := by
  induction text generalizing segment with
  | nil =>
    rw [segmentsOf, List.mem_singleton] at member
    subst member
    cases within
  | cons first text ih =>
    rw [segmentsOf] at member
    split at member
    · rcases List.mem_cons.mp member with rfl | later
      · cases within
      · obtain ⟨among, plain⟩ := ih later within
        exact ⟨List.mem_cons_of_mem _ among, plain⟩
    · next noSlash =>
        split at member
        · next empty => exact absurd empty (segmentsOf_ne_nil text)
        · next begun others cut =>
            rcases List.mem_cons.mp member with rfl | later
            · rcases List.mem_cons.mp within with rfl | inside
              · exact ⟨List.mem_cons_self, by simpa using noSlash⟩
              · obtain ⟨among, plain⟩ := ih (cut ▸ List.mem_cons_self) inside
                exact ⟨List.mem_cons_of_mem _ among, plain⟩
            · obtain ⟨among, plain⟩ :=
                ih (cut ▸ List.mem_cons_of_mem _ later) within
              exact ⟨List.mem_cons_of_mem _ among, plain⟩

/-- What stands before the query is cut into segments without delimiters. -/
theorem plain_of_mem_segmentsOf {segment : Text}
    (among : segment ∈ segmentsOf (pathStart (text.takeWhile fun character =>
      !endsPath character))) :
    ∀ character ∈ segment, isDelimiter character = false := by
  intro character within
  obtain ⟨here, plain⟩ := mem_segmentsOf among within
  have inFront : character ∈ text.takeWhile fun character =>
      !endsPath character := by
    generalize text.takeWhile (fun character => !endsPath character) = front
      at here
    cases front with
    | nil => exact here
    | cons first front =>
      rw [pathStart] at here
      split at here
      · exact List.mem_cons_of_mem _ here
      · exact here
  have kept := List.mem_takeWhile_imp inFront
  rw [isDelimiter, plain, Bool.false_or]
  simpa using kept

/-- A parser of hosts gives normal forms. -/
def Normalises (hosts : Text → Option Text) : Prop :=
  ∀ authority normal, hosts authority = some normal →
    Bounded normal ∧ hosts normal = some normal

/-- What a URL is that was parsed. -/
structure Url.Parsed (hosts : Text → Option Text) (url : Url) : Prop where
  bounded : Bounded url.authority
  host : hosts url.authority = some url.authority
  nonempty : url.path ≠ []
  normal : ∀ segment ∈ url.path, Normal segment

theorem parsed_of_parse {hosts : Text → Option Text}
    (normalises : Normalises hosts) {url : Url}
    (read : parse hosts text = some url) : url.Parsed hosts := by
  unfold parse at read
  simp only [bind, Option.bind_eq_some_iff] at read
  obtain ⟨scheme, -, normal, host, made⟩ := read
  cases made
  obtain ⟨bounded, again⟩ := normalises _ _ host
  have none_ : ∀ segment ∈ ([] : List Text), Normal segment := by
    intro segment member
    cases member
  obtain ⟨normal_, some_⟩ := pathState_spec none_
    fun segment among => plain_of_mem_segmentsOf among
  exact ⟨bounded, again, some_ (segmentsOf_ne_nil _), normal_⟩

end Parsed

end Whatwg
