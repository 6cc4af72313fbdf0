import Mathlib.Data.List.DropRight
import Sharerr.Rust.Text
import Sharerr.Torrent.Metainfo
import Sharerr.Vault.Handles
import Sharerr.Whatwg.Url

/-!
# The token in an announce URL

The token is one segment of the path, written behind the base as text and found
again behind the first segment named `announce`.
-/

namespace Sharerr

open Whatwg (Text Url Normal Normalises Bounded pathText suffixText pathState)

/-- The `url` crate, over a parser of hosts. -/
def urlsOf (hosts : Text → Option Text) : Urls where
  parse text :=
    match Whatwg.parse hosts text.toList with
    | some url => .ok (String.ofList url.text)
    | none => .error "invalid URL"
  pathSegments text :=
    (Whatwg.parse hosts text.toList).map fun url => url.path.map String.ofList

/-- What a tracker token may be made of. -/
def isTokenCharacter (character : Char) : Bool :=
  character.isAlphanum || character == '-' || character == '_' ||
    character == '.' || character == '~'

section Segments

variable {segments rest : List String}

theorem segmentAfterAnnounce_append (without : "announce" ∉ segments) :
    segmentAfterAnnounce (segments ++ rest) = segmentAfterAnnounce rest := by
  induction segments with
  | nil => rfl
  | cons first others ih =>
    rw [List.mem_cons, not_or] at without
    obtain ⟨here, later⟩ := without
    rw [List.cons_append, segmentAfterAnnounce, if_neg (Ne.symm here),
      ih later]

theorem segmentAfterAnnounce_ne_none (among : "announce" ∈ segments)
    (more : rest ≠ []) : segmentAfterAnnounce (segments ++ rest) ≠ none := by
  induction segments with
  | nil => cases among
  | cons first others ih =>
    rw [List.cons_append, segmentAfterAnnounce]
    by_cases here : first = "announce"
    · rw [if_pos here]
      obtain ⟨last, later, rfl⟩ := List.exists_cons_of_ne_nil more
      cases others <;> simp
    · rw [if_neg here]
      exact ih ((List.mem_cons.mp among).resolve_left (Ne.symm here))

end Segments

section Base

variable {front tail : Text} {path : List Text}

theorem rdropWhile_append_cons {trimmed : Char → Bool} {last : Char}
    (stays : trimmed last = false) :
    (front ++ last :: tail).rdropWhile trimmed =
      front ++ last :: tail.rdropWhile trimmed := by
  induction tail using List.reverseRecOn with
  | nil =>
    have kept : ¬ trimmed last = true := by simp [stays]
    rw [List.rdropWhile_concat_neg _ _ _ kept, List.rdropWhile_nil]
  | append_singleton tail character ih =>
    have shape : front ++ last :: (tail ++ [character]) =
        front ++ last :: tail ++ [character] := by simp
    rw [shape]
    by_cases gone : trimmed character = true
    · rw [List.rdropWhile_concat_pos _ _ _ gone,
        List.rdropWhile_concat_pos _ _ _ gone, ih]
    · rw [List.rdropWhile_concat_neg _ _ _ gone,
        List.rdropWhile_concat_neg _ _ _ gone, shape]

/-- A path without its empty last segments. -/
def trimmedPath (path : List Text) : List Text :=
  path.rdropWhile fun segment => segment = []

theorem pathText_append (path others : List Text) :
    pathText (path ++ others) = pathText path ++ pathText others := by
  rw [pathText, List.flatMap_append]
  rfl

theorem rdropWhile_pathText (front : Text) {last : Char} (stays : last ≠ '/')
    (normal : ∀ segment ∈ path, Normal segment) :
    (front ++ [last] ++ pathText path).rdropWhile (· = '/') =
      front ++ [last] ++ pathText (trimmedPath path) := by
  induction path using List.reverseRecOn with
  | nil =>
    have empty : pathText [] = [] := rfl
    rw [trimmedPath, List.rdropWhile_nil, empty, List.append_nil,
      List.rdropWhile_concat_neg _ _ _ (by simpa using stays)]
  | append_singleton path segment ih =>
    have before : ∀ segment ∈ path, Normal segment :=
      fun segment member => normal segment (List.mem_append_left _ member)
    rw [pathText_append, trimmedPath]
    rcases List.eq_nil_or_concat segment with rfl | ⟨begun, ended, rfl⟩
    · have slash : pathText [[]] = ['/'] := rfl
      rw [slash, ← List.append_assoc,
        List.rdropWhile_concat_pos _ _ _ (by decide),
        List.rdropWhile_concat_pos _ _ _ (by decide), ih before]
      rfl
    · rw [List.concat_eq_append] at normal ⊢
      have noSlash : ended ≠ '/' := by
        intro slash
        have plain := (normal (begun ++ [ended]) (by simp)).plain ended
          (by simp)
        rw [slash] at plain
        cases plain
      have text : pathText [begun ++ [ended]] = '/' :: begun ++ [ended] := by
        simp [pathText]
      rw [List.rdropWhile_concat_neg _ path _ (by simp), pathText_append,
        text, ← List.append_assoc, ← List.append_assoc,
        List.rdropWhile_concat_neg _ _ _ (by simpa using noSlash)]

theorem mem_trimmedPath {segment : Text} (nonempty : segment ≠ []) :
    segment ∈ trimmedPath path ↔ segment ∈ path := by
  induction path using List.reverseRecOn with
  | nil => rw [trimmedPath, List.rdropWhile_nil]
  | append_singleton path last ih =>
    rw [trimmedPath]
    by_cases empty : last = []
    · rw [List.rdropWhile_concat_pos _ _ _ (by simpa using empty)]
      rw [trimmedPath] at ih
      rw [ih, empty]
      simp [nonempty]
    · rw [List.rdropWhile_concat_neg _ _ _ (by simpa using empty)]

end Base

section Tokens

variable {character : Char} {token : Text}

theorem isTokenCharacter_spec (allowed : isTokenCharacter character = true) :
    Whatwg.isDelimiter character = false ∧
      Whatwg.inPathSet character = false ∧ character ≠ '%' := by
  have among : ∀ code < 128,
      isTokenCharacter (Char.ofNat code) = true →
        Whatwg.isDelimiter (Char.ofNat code) = false ∧
          Whatwg.inPathSet (Char.ofNat code) = false ∧
            Char.ofNat code ≠ '%' := by
    decide +kernel
  have ascii : character.toNat < 128 := by
    have kinds : ((((character.isAlphanum = true ∨ character = '-') ∨
        character = '_') ∨ character = '.') ∨ character = '~') := by
      simpa [isTokenCharacter] using allowed
    rcases kinds with (((alphanum | rfl) | rfl) | rfl) | rfl
    · exact Rust.ascii_of_isAlphanum alphanum
    all_goals decide
  have same : Char.ofNat character.toNat = character := Char.ofNat_toNat _
  rw [← same] at allowed ⊢
  exact among _ ascii allowed

theorem dots_eq_some {count : Nat} (plain : ∀ character ∈ token,
    character ≠ '%') (dotted : Whatwg.dots token = some count) :
    token = List.replicate count '.' := by
  induction token using Whatwg.dots.induct generalizing count with
  | case1 =>
    cases dotted
    rfl
  | case2 rest ih =>
    rw [Whatwg.dots] at dotted
    obtain ⟨fewer, later, rfl⟩ := Option.map_eq_some_iff.mp dotted
    have same := ih (fun character member =>
      plain character (List.mem_cons_of_mem _ member)) later
    rw [same, List.replicate_succ]
  | case3 rest ih => exact absurd rfl (plain '%' List.mem_cons_self)
  | case4 rest ih => exact absurd rfl (plain '%' List.mem_cons_self)
  | case5 token notEmpty notDot notSmall notLarge =>
    rw [Whatwg.dots.eq_5 token notEmpty notDot notSmall notLarge] at dotted
    cases dotted

theorem normal_token (allowed : ∀ character ∈ token,
      isTokenCharacter character = true) (one : token ≠ ['.'])
    (two : token ≠ ['.', '.']) : Normal token := by
  have plain : ∀ character ∈ token, character ≠ '%' :=
    fun character member => (isTokenCharacter_spec (allowed _ member)).2.2
  refine ⟨fun character member => (isTokenCharacter_spec (allowed _ member)).1,
    Whatwg.percentEncode_of_free fun character member =>
      (isTokenCharacter_spec (allowed _ member)).2.1, ?_, ?_⟩
  · rw [Whatwg.isSingleDot, decide_eq_false_iff_not]
    exact fun dotted => one (dots_eq_some plain dotted)
  · rw [Whatwg.isDoubleDot, decide_eq_false_iff_not]
    exact fun dotted => two (dots_eq_some plain dotted)

end Tokens

section Announce

variable {hosts : Text → Option Text} {base : Url}

theorem suffixText_cases (query fragment : Option Text) :
    (query = none ∧ fragment = none ∧ suffixText query fragment = []) ∨
      ∃ mark tail, suffixText query fragment = mark :: tail ∧
        Whatwg.endsPath mark = true ∧ mark ≠ '/' := by
  cases query with
  | some text => exact Or.inr ⟨_, _, rfl, rfl, by decide⟩
  | none =>
    cases fragment with
    | some text => exact Or.inr ⟨_, _, rfl, rfl, by decide⟩
    | none => exact Or.inl ⟨rfl, rfl, rfl⟩

theorem pathSegments_text {url : Url} (parsed : url.Parsed hosts) :
    (urlsOf hosts).pathSegments (String.ofList url.text) =
      some (url.path.map String.ofList) := by
  have ends : ∀ character ∈ (suffixText url.query url.fragment).head?,
      Whatwg.endsPath character = true := by
    intro character found
    rcases suffixText_cases url.query url.fragment with
      ⟨-, -, shape⟩ | ⟨mark, tail, shape, ends, -⟩
    · rw [shape] at found
      cases found
    · rw [shape] at found
      cases found
      exact ends
  obtain ⟨query, fragment, read⟩ := Whatwg.parse_written
    url.scheme parsed.bounded parsed.host parsed.nonempty
    (fun segment among => (parsed.normal segment among).plain) ends
  rw [Whatwg.pathState_normal parsed.normal, List.nil_append] at read
  simp only [urlsOf, String.toList_ofList, Url.text, read, Option.map_some]

/-- What stands in front of the path. -/
def origin (base : Url) : Text :=
  base.scheme.text ++ "://".toList ++ base.authority

theorem text_eq (base : Url) : base.text =
    origin base ++ (pathText base.path ++
      suffixText base.query base.fragment) := by
  rw [Url.text, origin, List.append_assoc]

theorem exists_last_of_origin (bounded : Bounded base.authority) :
    ∃ front last, origin base = front ++ [last] ∧ last ≠ '/' := by
  rcases List.eq_nil_or_concat base.authority with empty | ⟨front, last, shape⟩
  · exact absurd empty bounded.nonempty
  · rw [List.concat_eq_append] at shape
    refine ⟨base.scheme.text ++ "://".toList ++ front, last, ?_, ?_⟩
    · rw [origin, shape, List.append_assoc, List.append_assoc,
        List.append_assoc]
    · intro slash
      have plain := bounded.plain last (by rw [shape]; simp)
      rw [slash] at plain
      cases plain

theorem baseString_of_plain (parsed : base.Parsed hosts)
    (query : base.query = none) (fragment : base.fragment = none) :
    (baseString (String.ofList base.text)).toList =
      origin base ++ pathText (trimmedPath base.path) := by
  obtain ⟨front, last, shape, stays⟩ := exists_last_of_origin parsed.bounded
  have trimmed := rdropWhile_pathText front stays parsed.normal
  rw [← shape] at trimmed
  rw [baseString, String.toList_ofList, String.toList_ofList, ← trimmed,
    text_eq, query, fragment, suffixText]
  simp only [Option.elim_none, List.append_nil]
  rfl

theorem baseString_of_suffix
    (suffix : ¬ (base.query = none ∧ base.fragment = none)) :
    ∃ mark tail, Whatwg.endsPath mark = true ∧
      (baseString (String.ofList base.text)).toList =
        origin base ++ pathText base.path ++ mark :: tail := by
  obtain ⟨mark, tail, shape, ends, stays⟩ :=
    (suffixText_cases base.query base.fragment).resolve_left fun none_ =>
      suffix ⟨none_.1, none_.2.1⟩
  refine ⟨mark, tail.rdropWhile (· = '/'), ends, ?_⟩
  rw [baseString, String.toList_ofList, String.toList_ofList, text_eq, shape,
    ← List.append_assoc]
  exact rdropWhile_append_cons (by simpa using stays)

theorem read_written (normalises : Normalises hosts)
    (parsed : base.Parsed hosts) {segments : List Text} {tail : Text}
    {text : String}
    (written : text.toList = origin base ++ pathText segments ++ tail)
    (nonempty : segments ≠ []) (plain : ∀ segment ∈ segments,
      ∀ character ∈ segment, Whatwg.isDelimiter character = false)
    (ends : ∀ character ∈ tail.head?, Whatwg.endsPath character = true) :
    ∃ url, (urlsOf hosts).parse text = .ok url ∧
      tokenFromAnnounceUrl (urlsOf hosts) url =
        segmentAfterAnnounce ((pathState [] segments).map String.ofList) := by
  obtain ⟨query, fragment, read⟩ := Whatwg.parse_written
    base.scheme parsed.bounded parsed.host nonempty plain ends
  have whole : Whatwg.parse hosts text.toList = some ⟨base.scheme,
      base.authority, pathState [] segments, query, fragment⟩ := by
    rw [written]
    exact read
  have again := pathSegments_text (Whatwg.parsed_of_parse normalises whole)
  refine ⟨String.ofList (Url.text ⟨base.scheme, base.authority,
    pathState [] segments, query, fragment⟩), ?_, ?_⟩
  · simp only [urlsOf, whole]
  · rw [tokenFromAnnounceUrl, again]
    rfl

theorem token_of_suffix (normalises : Normalises hosts)
    (parsed : base.Parsed hosts)
    (suffix : ¬ (base.query = none ∧ base.fragment = none))
    (token : Option String) :
    ∃ url, announceUrl (urlsOf hosts) (String.ofList base.text) token =
        .ok url ∧
      tokenFromAnnounceUrl (urlsOf hosts) url =
        segmentAfterAnnounce (base.path.map String.ofList) := by
  obtain ⟨mark, tail, ends, shape⟩ := baseString_of_suffix suffix
  have plain : ∀ segment ∈ base.path, ∀ character ∈ segment,
      Whatwg.isDelimiter character = false :=
    fun segment among => (parsed.normal segment among).plain
  have behind (more : String) :
      ∃ url, (urlsOf hosts).parse (baseString (String.ofList base.text) ++
          more) = .ok url ∧
        tokenFromAnnounceUrl (urlsOf hosts) url =
          segmentAfterAnnounce (base.path.map String.ofList) := by
    have written : (baseString (String.ofList base.text) ++ more).toList =
        origin base ++ pathText base.path ++ mark :: (tail ++ more.toList) := by
      rw [String.toList_append, shape]
      simp
    have begins : ∀ character ∈ (mark :: (tail ++ more.toList)).head?,
        Whatwg.endsPath character = true := by
      intro character found
      rw [List.head?_cons, Option.mem_some_iff] at found
      rw [← found]
      exact ends
    have read := read_written normalises parsed written parsed.nonempty plain
      begins
    rwa [Whatwg.pathState_normal parsed.normal, List.nil_append] at read
  cases token with
  | none =>
    simp only [announceUrl, joinPath]
    exact behind announcePath
  | some token =>
    simp only [announceUrl, joinPath, String.append_assoc]
    exact behind (announcePath ++ ("/" ++ token))

def announceSegment : Text := "announce".toList

theorem normal_announceSegment : Normal announceSegment where
  plain := by
    have plain : announceSegment.any Whatwg.isDelimiter = false := by decide
    simpa using plain
  encoded := by decide
  single := by decide
  double := by decide

theorem token_of_plain (normalises : Normalises hosts)
    (parsed : base.Parsed hosts) (query : base.query = none)
    (fragment : base.fragment = none) {token : Option String}
    (plain : ∀ text ∈ token, ∀ character ∈ text.toList,
      Whatwg.isDelimiter character = false) :
    ∃ url, announceUrl (urlsOf hosts) (String.ofList base.text) token =
        .ok url ∧
      tokenFromAnnounceUrl (urlsOf hosts) url =
        segmentAfterAnnounce ((pathState [] (trimmedPath base.path ++
          announceSegment :: (token.map String.toList).toList)).map
            String.ofList) := by
  have shape := baseString_of_plain parsed query fragment
  have kept : ∀ segment ∈ trimmedPath base.path, ∀ character ∈ segment,
      Whatwg.isDelimiter character = false := by
    intro segment among character within
    have member := (mem_trimmedPath (by
      rintro rfl
      cases within)).mp among
    exact (parsed.normal segment member).plain character within
  have announce : ∀ character ∈ announceSegment,
      Whatwg.isDelimiter character = false := normal_announceSegment.plain
  have all : ∀ segment ∈ trimmedPath base.path ++
      announceSegment :: (token.map String.toList).toList,
      ∀ character ∈ segment, Whatwg.isDelimiter character = false := by
    intro segment among
    rcases List.mem_append.mp among with old | new
    · exact kept segment old
    · rcases List.mem_cons.mp new with rfl | last
      · exact announce
      · obtain ⟨text, given, rfl⟩ :=
          Option.map_eq_some_iff.mp (Option.mem_toList.mp last)
        exact plain text given
  have announced : announcePath.toList = '/' :: announceSegment := rfl
  have behind {text : String} (written : text.toList = origin base ++
      pathText (trimmedPath base.path ++
        announceSegment :: (token.map String.toList).toList) ++ []) :=
    read_written normalises parsed written (by simp) all (by
      intro character found
      cases found)
  cases token with
  | none =>
    refine behind ?_
    rw [joinPath, String.toList_append, shape, announced, pathText_append]
    simp [pathText]
  | some token =>
    refine behind ?_
    rw [joinPath, String.toList_append, String.toList_append,
      String.toList_append, shape, announced, pathText_append]
    simp [pathText]

theorem normal_trimmedPath (parsed : base.Parsed hosts) :
    ∀ segment ∈ trimmedPath base.path, Normal segment := fun segment member =>
  parsed.normal segment ((List.rdropWhile_prefix _ _).subset member)

theorem ofList_announceSegment : String.ofList announceSegment = "announce" :=
  String.ofList_toList

variable {path : List Text}

theorem mem_map_announce :
    "announce" ∈ path.map String.ofList ↔ announceSegment ∈ path := by
  have injective : Function.Injective String.ofList :=
    fun _ _ same => String.ofList_injective same
  rw [← ofList_announceSegment, List.mem_map_of_injective injective]

theorem segmentAfterAnnounce_behind {rest : List Text}
    (without : announceSegment ∉ path) :
    segmentAfterAnnounce ((path ++ announceSegment :: rest).map
      String.ofList) = rest.head?.map String.ofList := by
  rw [List.map_append, segmentAfterAnnounce_append
    (mt mem_map_announce.mp without)]
  rw [List.map_cons, segmentAfterAnnounce, if_pos ofList_announceSegment,
    List.head?_map]

/-- A token is found again, where it is kept as it is. -/
theorem segmentAfterAnnounce_token {token : String}
    (normal : ∀ segment ∈ path, Normal segment)
    (without : announceSegment ∉ path)
    (allowed : ∀ character ∈ token.toList, isTokenCharacter character = true) :
    segmentAfterAnnounce ((pathState [] (path ++ announceSegment ::
        [token.toList])).map String.ofList) = some token ↔
      token ≠ "." ∧ token ≠ ".." := by
  have before : ∀ segment ∈ path ++ [announceSegment], Normal segment := by
    intro segment among
    rcases List.mem_append.mp among with old | new
    · exact normal segment old
    · rw [List.mem_singleton.mp new]
      exact normal_announceSegment
  have split : path ++ announceSegment :: [token.toList] =
      path ++ [announceSegment] ++ [token.toList] := by simp
  rw [split, Whatwg.pathState_concat before, List.nil_append]
  by_cases one : token = "."
  · subst one
    have left : pathState (path ++ [announceSegment]) [".".toList] =
        path ++ announceSegment :: [[]] := by
      simp [pathState, Whatwg.isDoubleDot, Whatwg.isSingleDot, Whatwg.dots]
    rw [left, segmentAfterAnnounce_behind without]
    simp
  by_cases two : token = ".."
  · subst two
    have left : pathState (path ++ [announceSegment]) ["..".toList] =
        path ++ [[]] := by
      simp [pathState, Whatwg.isDoubleDot, Whatwg.dots]
    have empty : segmentAfterAnnounce ([[]].map String.ofList) = none := by
      decide
    rw [left, List.map_append, segmentAfterAnnounce_append
      (mt mem_map_announce.mp without), empty]
    simp
  · have stays : Normal token.toList := by
      refine normal_token allowed (fun same => one ?_) fun same => two ?_
      · exact String.toList_inj.mp same
      · exact String.toList_inj.mp same
    have back : path ++ [announceSegment] ++ [token.toList] =
        path ++ announceSegment :: [token.toList] := by simp
    rw [Whatwg.pathState_last stays, back,
      segmentAfterAnnounce_behind without]
    simp [one, two]

/-- Without a token nothing is found, unless the path names `announce`. -/
theorem segmentAfterAnnounce_none (normal : ∀ segment ∈ path, Normal segment) :
    segmentAfterAnnounce ((pathState [] (path ++ [announceSegment])).map
      String.ofList) = none ↔ announceSegment ∉ path := by
  rw [Whatwg.pathState_concat normal, Whatwg.pathState_last
    normal_announceSegment, List.nil_append]
  constructor
  · intro nothing among
    rw [List.map_append] at nothing
    exact segmentAfterAnnounce_ne_none (mem_map_announce.mpr among) (by simp)
      nothing
  · intro without
    rw [segmentAfterAnnounce_behind without]
    rfl

/-- The token is found again, and nothing without one, exactly for a base that
is no more than its path, of which no segment is `announce`, and a token that is
not one or two dots. -/
theorem token_survives_iff (hosts : Text → Option Text)
    (normalises : Normalises hosts) (text : String) (base : Url)
    (read : Whatwg.parse hosts text.toList = some base) (token : String)
    (valid : validateValue trackerTokenKey token = .ok ()) :
    (∃ carrying bare,
      announceUrl (urlsOf hosts) (String.ofList base.text) (some token) =
          .ok carrying ∧
        tokenFromAnnounceUrl (urlsOf hosts) carrying = some token ∧
      announceUrl (urlsOf hosts) (String.ofList base.text) none = .ok bare ∧
        tokenFromAnnounceUrl (urlsOf hosts) bare = none) ↔
      base.query = none ∧ base.fragment = none ∧
        "announce".toList ∉ base.path ∧ token ≠ "." ∧ token ≠ ".." := by
  have parsed := Whatwg.parsed_of_parse normalises read
  have allowed : ∀ character ∈ token.toList,
      isTokenCharacter character = true := by
    unfold validateValue at valid
    dsimp only at valid
    split at valid
    · cases valid
    · next fine =>
        exact List.all_eq_true.mp (not_not.mp (not_and.mp fine rfl))
  by_cases suffix : base.query = none ∧ base.fragment = none
  · obtain ⟨query, fragment⟩ := suffix
    have normal := normal_trimmedPath parsed
    have named : "announce".toList ∉ base.path ↔
        announceSegment ∉ trimmedPath base.path :=
      (not_congr (mem_trimmedPath (by decide))).symm
    have plain : ∀ given ∈ some token, ∀ character ∈ given.toList,
        Whatwg.isDelimiter character = false := by
      intro given same character member
      rw [← Option.some.inj same] at member
      exact (isTokenCharacter_spec (allowed character member)).1
    obtain ⟨carrying, made, found⟩ :=
      token_of_plain normalises parsed query fragment plain
    obtain ⟨bare, made_, found_⟩ := token_of_plain normalises parsed query
      fragment (fun _ (given : _ ∈ none) => nomatch given)
    constructor
    · intro survives
      obtain ⟨carrying', bare', made', found', made_', found_'⟩ := survives
      rw [Except.ok.inj (made'.symm.trans made), found] at found'
      rw [Except.ok.inj (made_'.symm.trans made_), found_] at found_'
      have without := (segmentAfterAnnounce_none normal).mp found_'
      exact ⟨query, fragment, named.mpr without,
        (segmentAfterAnnounce_token normal without allowed).mp found'⟩
    · intro condition
      obtain ⟨-, -, free, dots⟩ := condition
      have without := named.mp free
      exact ⟨carrying, bare, made, found.trans
        ((segmentAfterAnnounce_token normal without allowed).mpr dots), made_,
        found_.trans ((segmentAfterAnnounce_none normal).mpr without)⟩
  · obtain ⟨carrying, made, found⟩ :=
      token_of_suffix normalises parsed suffix (some token)
    obtain ⟨bare, made_, found_⟩ :=
      token_of_suffix normalises parsed suffix none
    constructor
    · intro survives
      obtain ⟨carrying', bare', made', found', made_', found_'⟩ := survives
      rw [Except.ok.inj (made'.symm.trans made), found] at found'
      rw [Except.ok.inj (made_'.symm.trans made_), found_, found'] at found_'
      cases found_'
    · intro condition
      exact absurd ⟨condition.1, condition.2.1⟩ suffix

/-- Hosts that are their own normal form. -/
def plainHosts (authority : Text) : Option Text :=
  if authority ≠ [] ∧ authority.any Whatwg.isDelimiter = false then
    some authority
  else none

theorem normalises_plainHosts : Normalises plainHosts := by
  intro authority normal found
  unfold plainHosts at found
  split at found
  · next plain =>
      cases found
      exact ⟨⟨plain.1, by simpa using plain.2⟩, if_pos plain⟩
  · cases found

def announceProxy : String := "http://h/announce"

/-- Behind a proxy that serves under `announce` the token is not found, and
neither is one of a single dot anywhere. -/
theorem token_lost :
    validateValue trackerTokenKey "s3cret" = .ok () ∧
    validateValue trackerTokenKey "." = .ok () ∧
    (announceUrl (urlsOf plainHosts) announceProxy (some "s3cret")).map
        (tokenFromAnnounceUrl (urlsOf plainHosts)) =
      .ok (some "announce") ∧
    (announceUrl (urlsOf plainHosts) announceProxy none).map
        (tokenFromAnnounceUrl (urlsOf plainHosts)) =
      .ok (some "announce") ∧
    (announceUrl (urlsOf plainHosts) "http://h/" (some ".")).map
        (tokenFromAnnounceUrl (urlsOf plainHosts)) = .ok (some "") := by
  decide +kernel

theorem token_kept :
    ∃ carrying bare,
      announceUrl (urlsOf plainHosts) "http://h/sharerr" (some "s3cret") =
          .ok carrying ∧
        tokenFromAnnounceUrl (urlsOf plainHosts) carrying = some "s3cret" ∧
      announceUrl (urlsOf plainHosts) "http://h/sharerr" none = .ok bare ∧
        tokenFromAnnounceUrl (urlsOf plainHosts) bare = none := by
  have read : Whatwg.parse plainHosts "http://h/sharerr".toList =
      some ⟨.http, ['h'], ["sharerr".toList], none, none⟩ := by
    decide +kernel
  have survives := (token_survives_iff plainHosts normalises_plainHosts
    "http://h/sharerr" _ read "s3cret" rfl).mpr
      ⟨rfl, rfl, by decide, by decide, by decide⟩
  have text : String.ofList (Url.text ⟨.http, ['h'], ["sharerr".toList], none,
      none⟩) = "http://h/sharerr" := by
    decide +kernel
  rw [text] at survives
  exact survives

end Announce

end Sharerr
