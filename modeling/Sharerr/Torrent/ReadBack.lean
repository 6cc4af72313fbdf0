import Sharerr.Scan.Reading
import Sharerr.Torrent.Title

/-!
# Whether a made-up title is read as its item

The words of the title come before the episode number or the year, so a made-up
title is read as its item if none of them has the shape of what comes after
them.
-/

namespace Sharerr

namespace Title

open Scan

/-- A word of letters and digits. -/
structure IsTitleWord (word : String) : Prop where
  nonempty : word.toList ≠ []
  alphanum : ∀ character ∈ word.toList, character.isAlphanum = true

variable {word text title : String}

theorem IsTitleWord.isToken (isWord : IsTitleWord word) :
    IsToken word where
  isWord := ⟨isWord.nonempty, fun character member =>
    Rust.isWhitespace_of_isAlphanum (isWord.alphanum character member)⟩
  noDot member := absurd (isWord.alphanum _ member) (by decide)
  noUnderscore member := absurd (isWord.alphanum _ member) (by decide)

variable {letters : Letters}

theorem transliterate_ascii
    (ascii : ∀ character ∈ text.toList, character.toNat < 128) :
    transliterate letters text = text := by
  have unmarked : text.toList.filter (fun character =>
      !letters.isCombiningMark character) = text.toList := by
    rw [List.filter_eq_self]
    intro character member
    rw [letters.noMark_ascii character (ascii character member)]
    rfl
  rw [transliterate, letters.nfkd_ascii _ ascii, unmarked,
    String.ofList_toList]

/-- The words of a title, or of its placeholder. -/
def titleWords (letters : Letters) (title : String) : List String :=
  if words letters title = [] then
    ["Unknown", String.ofList
      ((asciiFallback letters title).toList.drop "unknown".length)]
  else words letters title

theorem fallback_digits (letters : Letters) (title : String) :
    ∃ digits : List Char, (asciiFallback letters title).toList =
        "unknown".toList ++ digits ∧ digits.length = 8 ∧
      ∀ character ∈ digits, ∃ value, value < 16 ∧
        character = Tracker.hexDigit value := by
  refine ⟨_, String.toList_append, ?_, fun _ => Tracker.mem_hexEncode⟩
  have digest := (letters.sha256
    (Vault.toUtf8 (letters.toLowercase title))).property
  rw [Tracker.hexEncode, String.toList_ofList]
  simp [digest]

theorem isTitleWord_of_mem_words (member : word ∈ words letters title) :
    IsTitleWord word where
  nonempty := Rust.nonempty_of_mem_splitWhitespace member
  alphanum := by
    intro character among
    obtain ⟨kept, plain⟩ := Rust.mem_of_mem_splitWhitespace member among
    obtain ⟨source, -, rfl⟩ := List.mem_map.mp kept
    split at plain
    · rename_i alphanum
      rwa [if_pos alphanum]
    · cases plain

theorem isTitleWord_of_mem_titleWords {title word : String}
    (member : word ∈ titleWords letters title) : IsTitleWord word := by
  unfold titleWords at member
  split at member
  · obtain ⟨digits, split, length, hex⟩ := fallback_digits letters title
    rw [split, List.mem_cons, List.mem_singleton] at member
    rcases member with rfl | rfl
    · exact ⟨by decide, List.all_eq_true.mp (by decide)⟩
    · rw [List.drop_left' (by rfl)]
      constructor
      · rw [String.toList_ofList]
        rintro rfl
        cases length
      · intro character among
        rw [String.toList_ofList] at among
        obtain ⟨value, small, rfl⟩ := hex character among
        have all : ∀ value, value < 16 →
            (Tracker.hexDigit value).isAlphanum = true := by decide
        exact all value small
  · exact isTitleWord_of_mem_words member

theorem titleWords_ne_nil (letters : Letters) (title : String) :
    titleWords letters title ≠ [] := by
  unfold titleWords
  split
  · exact List.cons_ne_nil _ _
  · assumption

theorem dotted_eq (letters : Letters) (title : String) :
    dotted letters title =
      String.intercalate "." (titleWords letters title) := by
  unfold dotted titleWords
  dsimp only
  by_cases wordless : words letters title = []
  · simp [wordless]
  · have nonempty : String.intercalate "." (words letters title) ≠ "" := by
      intro empty
      obtain ⟨first, rest, split⟩ := List.exists_cons_of_ne_nil wordless
      have isWord := isTitleWord_of_mem_words
        (show first ∈ words letters title by simp [split])
      rw [split] at empty
      cases rest with
      | nil =>
        rw [String.intercalate_singleton] at empty
        exact isWord.nonempty (by simp [empty])
      | cons second rest =>
        rw [String.intercalate_cons_cons] at empty
        have texts := congrArg String.toList empty
        simp at texts
    rw [if_neg nonempty, if_neg wordless]

theorem key_of_ascii (ascii : ∀ character ∈ text.toList, character.toNat < 128)
    (lettered : text.toList.filter Char.isAlphanum ≠ []) :
    key letters text = String.ofList
      ((text.toList.filter Char.isAlphanum).map Char.toLower) := by
  rw [key, transliterate_ascii ascii]
  exact if_neg (by simpa using lettered)

section Joined

variable {front : List String}
  (all : ∀ word ∈ front, IsTitleWord word)

include all

/-- The letters of words survive their being joined. -/
theorem alphanum_joinTitle : (joinTitle front).toList.filter Char.isAlphanum =
    front.flatMap String.toList := by
  have apart : ∀ character : Char,
      (character = '-' || character = ' ') = true →
        character.isAlphanum = false := by
    intro character trimmed
    rcases Bool.or_eq_true_iff.mp trimmed with hyphen | space
    · rw [of_decide_eq_true hyphen]
      rfl
    · rw [of_decide_eq_true space]
      rfl
  rw [joinTitle, Rust.filter_trimMatches apart, String.toList_intercalate,
    Rust.filter_intercalate (by rfl), ← List.flatMap_def, List.filter_eq_self]
  intro character member
  obtain ⟨word, member, among⟩ := List.mem_flatMap.mp member
  exact (all word member).alphanum character among

theorem ascii_joinTitle {character : Char}
    (member : character ∈ (joinTitle front).toList) :
    character.toNat < 128 := by
  have joined := Rust.mem_of_mem_trimMatches member
  rw [String.toList_intercalate] at joined
  rcases Rust.mem_intercalate joined with space | inside
  · rw [List.mem_singleton.mp (show character ∈ [' '] from space)]
    decide
  · rw [← List.flatMap_def] at inside
    obtain ⟨word, member, among⟩ := List.mem_flatMap.mp inside
    exact Rust.ascii_of_isAlphanum ((all word member).alphanum character among)

variable (nonempty : front ≠ [])

include nonempty

theorem letters_ne_nil : front.flatMap String.toList ≠ [] := by
  intro empty
  obtain ⟨first, rest, rfl⟩ := List.exists_cons_of_ne_nil nonempty
  rw [List.flatMap_cons, List.append_eq_nil_iff] at empty
  exact (all first List.mem_cons_self).nonempty empty.1

theorem joinTitle_ne_empty : joinTitle front ≠ "" := by
  intro empty
  have kept := alphanum_joinTitle all
  rw [empty] at kept
  exact letters_ne_nil all nonempty kept.symm

theorem key_joinTitle : key letters (joinTitle front) =
    String.ofList ((front.flatMap String.toList).map Char.toLower) := by
  have kept := alphanum_joinTitle all
  rw [key_of_ascii (fun _ => ascii_joinTitle all) (by
    rw [kept]
    exact letters_ne_nil all nonempty), kept]

end Joined

theorem alphanum_words (letters : Letters) (title : String) :
    (words letters title).flatMap String.toList =
      (transliterate letters title).toList.filter Char.isAlphanum := by
  have same : ∀ character ∈ (transliterate letters title).toList,
      ((fun character => !Rust.isWhitespace character) ∘ fun character =>
        if character.isAlphanum then character else ' ') character =
        character.isAlphanum := by
    intro character _
    cases kind : character.isAlphanum with
    | true => simp [kind, Rust.isWhitespace_of_isAlphanum kind]
    | false => simp [kind, Rust.isWhitespace]
  rw [words, Rust.flatMap_splitWhitespace, List.reverse_nil, List.nil_append,
    List.filter_map, List.filter_congr same]
  refine (List.map_congr_left fun character member => ?_).trans (List.map_id _)
  rw [if_pos (List.mem_filter.mp member).2]
  rfl

/-- The words of a placeholder are it in lower case. -/
theorem asciiFallback_eq (wordless : words letters title = []) :
    asciiFallback letters title =
      String.ofList (((titleWords letters title).flatMap String.toList).map
        Char.toLower) := by
  obtain ⟨digits, split, -, hex⟩ := fallback_digits letters title
  have lowered : digits.map Char.toLower = digits := by
    refine (List.map_congr_left fun character member => ?_).trans
      (List.map_id _)
    obtain ⟨value, small, rfl⟩ := hex character member
    have all : ∀ value, value < 16 →
        (Tracker.hexDigit value).toLower = Tracker.hexDigit value := by decide
    exact all value small
  have placeholder : asciiFallback letters title =
      String.ofList ("unknown".toList ++ digits) := by
    rw [← split, String.ofList_toList]
  rw [titleWords, if_pos wordless, split, List.drop_left' (by rfl), placeholder]
  simp [lowered]

/-- A title is compared by the letters of its words. -/
theorem key_title (letters : Letters) (title : String) : key letters title =
    String.ofList (((titleWords letters title).flatMap String.toList).map
      Char.toLower) := by
  unfold key
  dsimp only
  rw [← alphanum_words]
  by_cases wordless : words letters title = []
  · have empty : (([] : List String).flatMap String.toList).map
        Char.toLower = [] := rfl
    rw [← asciiFallback_eq wordless, wordless, if_pos empty]
  · have lettered : ((words letters title).flatMap String.toList).map
        Char.toLower ≠ [] := by
      intro empty
      exact letters_ne_nil (fun word => isTitleWord_of_mem_words) wordless
        (List.map_eq_nil_iff.mp empty)
    rw [if_neg lettered, titleWords, if_neg wordless]

theorem looseEq_joinTitle {front rest : List String}
    (split : titleWords letters title = front ++ rest) (nonempty : front ≠ []) :
    looseEq letters (joinTitle front) title = true ↔ rest = [] := by
  have all : ∀ word ∈ front ++ rest, IsTitleWord word := by
    intro word member
    rw [← split] at member
    exact isTitleWord_of_mem_titleWords member
  have inFront : ∀ word ∈ front, IsTitleWord word := fun word member =>
    all word (List.mem_append_left _ member)
  rw [looseEq, decide_eq_true_iff, key_joinTitle inFront nonempty, key_title,
    split, List.flatMap_append]
  constructor
  · intro same
    by_contra more
    have inRest : ∀ word ∈ rest, IsTitleWord word := fun word member =>
      all word (List.mem_append_right _ member)
    have lengths := congrArg (fun text => text.toList.length) same
    simp only [String.toList_ofList, List.length_map, List.length_append]
      at lengths
    have positive := List.length_pos_of_ne_nil (letters_ne_nil inRest more)
    omega
  · rintro rfl
    simp

theorem seasonEpisode_eq_none {first : Char} {rest : List Char}
    (starts : word.toList = first :: rest) (lower : first ≠ 's')
    (upper : first ≠ 'S') : seasonEpisode word = none := by
  unfold seasonEpisode
  rw [starts]
  exact if_pos ⟨lower, upper⟩

theorem seasonEpisode_digits {number : Nat}
    (isNumeral : Rust.IsNumeral text number) : seasonEpisode text = none := by
  obtain ⟨first, rest, starts⟩ :=
    List.exists_cons_of_ne_nil isNumeral.nonempty
  have isDigit := isNumeral.digits first (by simp [starts])
  refine seasonEpisode_eq_none starts ?_ ?_ <;>
  · rintro rfl
    cases isDigit

theorem unread_placeholder (wordless : words letters title = []) :
    (∀ word ∈ titleWords letters title, seasonEpisode word = none) ∧
      ∀ word ∈ (titleWords letters title).drop 1, releaseYear word = none := by
  obtain ⟨digits, split, length, hex⟩ := fallback_digits letters title
  have placeholder : titleWords letters title =
      ["Unknown", String.ofList digits] := by
    rw [titleWords, if_pos wordless, split, List.drop_left' (by rfl)]
  have plain : ∀ value, value < 16 → Tracker.hexDigit value ≠ 's' ∧
      Tracker.hexDigit value ≠ 'S' ∧
      (Tracker.hexDigit value).toNat < 128 ∧
      ['(', ')', '[', ']'].contains (Tracker.hexDigit value) = false := by
    decide
  have all : ∀ character ∈ digits, character ≠ 's' ∧ character ≠ 'S' ∧
      character.toNat < 128 ∧
      ['(', ')', '[', ']'].contains character = false := by
    intro character member
    obtain ⟨value, small, rfl⟩ := hex character member
    exact plain value small
  rw [placeholder]
  constructor
  · intro word member
    rw [List.mem_cons, List.mem_singleton] at member
    rcases member with rfl | rfl
    · rfl
    · obtain ⟨first, rest, starts⟩ := List.exists_cons_of_length_eq_add_one
        length
      obtain ⟨lower, upper, -⟩ := all first (by simp [starts])
      exact seasonEpisode_eq_none (by rw [String.toList_ofList, starts])
        lower upper
  · intro word member
    obtain rfl : word = String.ofList digits := by simpa using member
    have untrimmed : Rust.trimMatches
        (fun character => ['(', ')', '[', ']'].contains character)
        (String.ofList digits) = String.ofList digits := by
      apply Rust.trimMatches_of_none
      rw [String.toList_ofList]
      exact fun character member => (all character member).2.2.2
    have size := Rust.utf8ByteSize_of_ascii fun character member =>
      (all character member).2.2.1
    unfold releaseYear
    rw [untrimmed]
    exact if_pos (by omega)

/-- `SxxEyy`. -/
def episodeToken (season episode : Nat) : String :=
  "S" ++ Rust.twoDigits season ++ "E" ++ Rust.twoDigits episode

theorem seasonEpisode_episodeToken {season episode : Nat}
    (seasonFits : season < 4294967296) (episodeFits : episode < 4294967296) :
    seasonEpisode (episodeToken season episode) = some (season, episode) := by
  have before := Rust.isNumeral_twoDigits season
  have behind := Rust.isNumeral_twoDigits episode
  have text : (episodeToken season episode).toList = 'S' ::
      ((Rust.twoDigits season).toList ++
        'E' :: (Rust.twoDigits episode).toList) := by
    simp [episodeToken]
  have front : ((Rust.twoDigits season).toList ++
      'E' :: (Rust.twoDigits episode).toList).takeWhile
        (fun character => !(decide (character = 'e') ||
          decide (character = 'E'))) =
      (Rust.twoDigits season).toList := by
    rw [List.takeWhile_append_of_pos]
    · simp
    · intro character member
      have isDigit := before.digits character member
      have lower : character ≠ 'e' := by
        rintro rfl
        cases isDigit
      have upper : character ≠ 'E' := by
        rintro rfl
        cases isDigit
      simp [lower, upper]
  have around : Rust.splitOnce
      (fun character => character = 'e' || character = 'E')
      (String.ofList ((Rust.twoDigits season).toList ++
        'E' :: (Rust.twoDigits episode).toList)) =
      some (Rust.twoDigits season, Rust.twoDigits episode) := by
    rw [Rust.splitOnce, String.toList_ofList, front, List.drop_left' rfl]
    simp
  unfold seasonEpisode
  rw [text]
  dsimp only
  rw [if_neg (by decide), around]
  dsimp only [bind, Option.bind]
  rw [Rust.parseU32_of_isNumeral before seasonFits,
    Rust.parseU32_of_isNumeral behind episodeFits]
  rfl

theorem releaseYear_toString {year : Nat} (first : 1900 ≤ year)
    (last : year ≤ 2099) : releaseYear (toString year) = some year := by
  have isNumeral := Rust.isNumeral_toString year
  have untrimmed : Rust.trimMatches
      (fun character => ['(', ')', '[', ']'].contains character)
      (toString year) = toString year := by
    apply Rust.trimMatches_of_none
    intro character member
    have alphanum := isNumeral.alphanum member
    cases bracket : ['(', ')', '[', ']'].contains character with
    | false => rfl
    | true =>
      rw [List.contains_iff_mem] at bracket
      simp only [List.mem_cons, List.not_mem_nil, or_false] at bracket
      rcases bracket with rfl | rfl | rfl | rfl <;> cases alphanum
  have size : (toString year).utf8ByteSize = 4 := by
    have ascii := Rust.utf8ByteSize_of_ascii fun character member =>
      Rust.ascii_of_isAlphanum (isNumeral.alphanum member)
    rw [String.ofList_toList, String.length_toList] at ascii
    have atMost := (Nat.length_repr_le_iff (n := year) (k := 4)
      (by decide)).mpr (by omega)
    have atLeast := mt (Nat.length_repr_le_iff (n := year) (k := 3)
      (by decide)).mp (by omega)
    rw [ascii, Nat.toString_eq_repr]
    omega
  unfold releaseYear
  dsimp only
  rw [untrimmed, if_neg (by omega),
    Rust.parseU32_of_isNumeral isNumeral (by omega), Option.filter_some,
    if_pos (by simp [first, last])]

/-- A word of no episode, kept apart by dots. -/
def isQuiet : List Char → Bool
  | [] => false
  | first :: rest => first ≠ 's' && first ≠ 'S' &&
      (first :: rest).all fun character =>
        !Rust.isWhitespace character && character ≠ '.' && character ≠ '_'

theorem quiet {token : String} (isQuiet : isQuiet token.toList = true) :
    IsToken token ∧ seasonEpisode token = none := by
  cases starts : token.toList with
  | nil => simp [starts, Title.isQuiet] at isQuiet
  | cons first rest =>
    simp only [starts, Title.isQuiet, Bool.and_eq_true, List.all_eq_true,
      decide_eq_true_eq, Bool.not_eq_true'] at isQuiet
    obtain ⟨⟨lower, upper⟩, all⟩ := isQuiet
    refine ⟨⟨⟨by simp [starts], ?_⟩, ?_, ?_⟩,
      seasonEpisode_eq_none starts lower upper⟩
    · rw [starts]
      exact fun character member => (all character member).1.1
    · rw [starts]
      exact fun member => (all _ member).1.2 rfl
    · rw [starts]
      exact fun member => (all _ member).2 rfl

theorem isQuiet_resolution (media : Option MediaMeta) :
    isQuiet (videoTokens media).1.toList = true := by
  have named : ∀ width height name, rungName width height = some name →
      isQuiet name.toList = true := by
    intro width height name found
    obtain ⟨step, chosen, rfl⟩ := Option.map_eq_some_iff.mp found
    have all : ∀ step ∈ [(7680, 4320, "4320p"), (3840, 2160, "2160p"),
        (1920, 1080, "1080p"), (1280, 720, "720p"), (720, 576, "576p"),
        (720, 480, "480p")], isQuiet step.2.2.toList = true := by decide
    exact all step (List.mem_of_find?_eq_some chosen)
  change isQuiet ((media.bind MediaMeta.sceneResolution).getD "1080p").toList =
    true
  cases resolution : media.bind MediaMeta.sceneResolution with
  | none => decide
  | some name =>
    obtain ⟨media, -, resolution⟩ := Option.bind_eq_some_iff.mp resolution
    obtain ⟨size, -, found⟩ := Option.bind_eq_some_iff.mp resolution
    exact named _ _ _ found

theorem isQuiet_codec (media : Option MediaMeta) :
    isQuiet ((videoTokens media).2 ++ "-" ++ group).toList = true := by
  change isQuiet ((media.bind MediaMeta.sceneVideoCodec).getD "x264" ++ "-" ++
    group).toList = true
  cases codec : media.bind MediaMeta.sceneVideoCodec with
  | none => decide
  | some name =>
    obtain ⟨media, -, codec⟩ := Option.bind_eq_some_iff.mp codec
    obtain ⟨raw, -, found⟩ := Option.bind_eq_some_iff.mp codec
    obtain ⟨entry, chosen, rfl⟩ := Option.map_eq_some_iff.mp found
    have all : ∀ entry ∈ videoTokenTable,
        isQuiet (entry.2 ++ "-" ++ group).toList = true := by decide
    exact all entry (List.mem_of_find?_eq_some chosen)

/-- What a made-up title ends in. -/
def qualityTokens (media : Option MediaMeta) : List String :=
  [(videoTokens media).1, "WEB-DL", (videoTokens media).2 ++ "-" ++ group]

theorem quiet_of_mem_qualityTokens {media : Option MediaMeta} {token : String}
    (member : token ∈ qualityTokens media) :
    IsToken token ∧ seasonEpisode token = none := by
  simp only [qualityTokens, List.mem_cons, List.not_mem_nil, or_false]
    at member
  rcases member with rfl | rfl | rfl
  · exact quiet (isQuiet_resolution media)
  · exact quiet (by decide)
  · exact quiet (isQuiet_codec media)

section Synthesize

variable (letters : Letters) (title : String) (media : Option MediaMeta)

/-- A dotted title that one more word and the quality follow. -/
theorem tokensOf_dotted {token : String} (isToken : IsToken token) :
    tokensOf (dotted letters title ++ "." ++ token ++ "." ++
      (videoTokens media).1 ++ ".WEB-DL." ++ (videoTokens media).2 ++ "-" ++
      group) = titleWords letters title ++ token :: qualityTokens media := by
  have joined : dotted letters title ++ "." ++ token ++ "." ++
      (videoTokens media).1 ++ ".WEB-DL." ++ (videoTokens media).2 ++ "-" ++
      group = String.intercalate "."
        (titleWords letters title ++ token :: qualityTokens media) := by
    rw [String.intercalate_append_of_ne_nil (titleWords_ne_nil letters title)
      (List.cons_ne_nil _ _), dotted_eq, qualityTokens,
      ← String.toList_inj]
    simp
  rw [joined]
  apply tokensOf_intercalate
  intro word member
  rcases List.mem_append.mp member with inTitle | member
  · exact (isTitleWord_of_mem_titleWords inTitle).isToken
  · rcases List.mem_cons.mp member with rfl | inQuality
    · exact isToken
    · exact (quiet_of_mem_qualityTokens inQuality).1

end Synthesize

theorem synthesize_episode (letters : Letters) (title : String)
    (season episode : Nat) (media : Option MediaMeta) :
    synthesize letters (.episode title season episode) media =
      dotted letters title ++ "." ++ episodeToken season episode ++ "." ++
        (videoTokens media).1 ++ ".WEB-DL." ++ (videoTokens media).2 ++ "-" ++
        group := by
  have shape : ".S" = "." ++ "S" := rfl
  change dotted letters title ++ ".S" ++ Rust.twoDigits season ++ "E" ++
    Rust.twoDigits episode ++ "." ++ (videoTokens media).1 ++ ".WEB-DL." ++
    (videoTokens media).2 ++ "-" ++ group = _
  rw [shape, episodeToken]
  simp only [String.append_assoc]

theorem isToken_of_isNumeral {number : Nat}
    (isNumeral : Rust.IsNumeral text number) : IsToken text :=
  IsTitleWord.isToken
    ⟨isNumeral.nonempty, fun _ => isNumeral.alphanum⟩

theorem isToken_episodeToken (season episode : Nat) :
    IsToken (episodeToken season episode) := by
  refine IsTitleWord.isToken ⟨by simp [episodeToken], ?_⟩
  intro character member
  have parts : character = 'S' ∨ character ∈ (Rust.twoDigits season).toList ∨
      character = 'E' ∨ character ∈ (Rust.twoDigits episode).toList := by
    simpa [episodeToken] using member
  rcases parts with rfl | inSeason | rfl | inEpisode
  · rfl
  · exact (Rust.isNumeral_twoDigits season).alphanum inSeason
  · rfl
  · exact (Rust.isNumeral_twoDigits episode).alphanum inEpisode

theorem tokensOf_episode (letters : Letters) (title : String)
    (season episode : Nat) (media : Option MediaMeta) :
    tokensOf (synthesize letters (.episode title season episode) media) =
      titleWords letters title ++
        episodeToken season episode :: qualityTokens media := by
  rw [← tokensOf_dotted letters title media
    (isToken_episodeToken season episode), synthesize_episode]

theorem tokensOf_movie (letters : Letters) (title : String) (year : Nat)
    (media : Option MediaMeta) :
    tokensOf (synthesize letters (.movie title (some year)) media) =
      titleWords letters title ++ toString year :: qualityTokens media := by
  rw [← tokensOf_dotted letters title media
    (isToken_of_isNumeral (Rust.isNumeral_toString year))]
  rfl

section Iff

variable {letters : Letters} {title : String}

/-- No word of the title is in the shape of an episode number. -/
def NoEpisodeWord (letters : Letters) (title : String) : Prop :=
  ∀ word ∈ words letters title, seasonEpisode word = none

/-- No word of the title is in the shape of a year; the first is never taken
for one. -/
def NoYearWord (letters : Letters) (title : String) : Prop :=
  ∀ word ∈ (words letters title).drop 1, releaseYear word = none

theorem noEpisodeWord_iff : NoEpisodeWord letters title ↔
    ∀ word ∈ titleWords letters title, seasonEpisode word = none := by
  by_cases wordless : words letters title = []
  · exact iff_of_true (by simp [NoEpisodeWord, wordless])
      (unread_placeholder wordless).1
  · rw [NoEpisodeWord, titleWords, if_neg wordless]

theorem noYearWord_iff : NoYearWord letters title ↔
    ∀ word ∈ (titleWords letters title).drop 1, releaseYear word = none := by
  by_cases wordless : words letters title = []
  · exact iff_of_true (by simp [NoYearWord, wordless])
      (unread_placeholder wordless).2
  · rw [NoYearWord, titleWords, if_neg wordless]

/-- A parse that stops within the title does not describe it. -/
theorem not_looseEq_of_stopped {front rest : List String} {word : String}
    (split : titleWords letters title = front ++ word :: rest)
    (named : joinTitle front ≠ "") :
    looseEq letters (joinTitle front) title = false := by
  have nonempty : front ≠ [] := by
    rintro rfl
    exact named rfl
  cases equal : looseEq letters (joinTitle front) title with
  | false => rfl
  | true => cases (looseEq_joinTitle split nonempty).mp equal

theorem joinTitle_titleWords (letters : Letters) (title : String) :
    joinTitle (titleWords letters title) ≠ "" ∧
      looseEq letters (joinTitle (titleWords letters title)) title = true :=
  have nonempty := titleWords_ne_nil letters title
  ⟨joinTitle_ne_empty (fun _ => isTitleWord_of_mem_titleWords) nonempty,
    (looseEq_joinTitle (List.append_nil _).symm nonempty).mpr rfl⟩

/-- A word of the title that is taken for an episode number. -/
theorem parse_of_episodeWord {made : String} {tail : List String}
    (tokens : tokensOf made = titleWords letters title ++ tail)
    (misread : ¬ NoEpisodeWord letters title) :
    ∃ front word rest season episode,
      titleWords letters title = front ++ word :: rest ∧
        parse made = if joinTitle front = "" then .unparseable
          else .episode (joinTitle front) season episode := by
  rw [noEpisodeWord_iff] at misread
  obtain ⟨front, word, rest, ⟨season, episode⟩, split, unread, found⟩ :=
    exists_firstRead misread
  refine ⟨front, word, rest, season, episode, split, ?_⟩
  rw [split, List.append_assoc] at tokens
  exact parse_episode tokens unread found

theorem episode_describes_iff (season episode : Nat)
    (seasonFits : season < 4294967296) (episodeFits : episode < 4294967296)
    (media : Option MediaMeta) :
    describes letters
        (parse (synthesize letters (.episode title season episode) media))
        (.episode title season episode) = true ↔
      NoEpisodeWord letters title := by
  have tokens := tokensOf_episode letters title season episode media
  constructor
  · intro described
    by_contra misread
    obtain ⟨front, word, rest, s, e, split, parsed⟩ :=
      parse_of_episodeWord tokens misread
    rw [parsed] at described
    split at described
    · cases described
    · rename_i named
      simp [describes, not_looseEq_of_stopped split named] at described
  · intro unread
    obtain ⟨named, equal⟩ := joinTitle_titleWords letters title
    rw [parse_episode tokens (noEpisodeWord_iff.mp unread)
      (seasonEpisode_episodeToken seasonFits episodeFits), if_neg named]
    simp [describes, equal]

/-- Nothing behind the title is taken for an episode number. -/
theorem unread_movie (unread : NoEpisodeWord letters title) (year : Nat)
    (media : Option MediaMeta) : ∀ word ∈ tokensOf
      (synthesize letters (.movie title (some year)) media),
      seasonEpisode word = none := by
  intro word member
  rw [tokensOf_movie] at member
  rcases List.mem_append.mp member with inTitle | member
  · exact noEpisodeWord_iff.mp unread word inTitle
  · rcases List.mem_cons.mp member with rfl | inQuality
    · exact seasonEpisode_digits (Rust.isNumeral_toString year)
    · exact (quiet_of_mem_qualityTokens inQuality).2

theorem parse_of_yearWord (unread : NoEpisodeWord letters title)
    (misread : ¬ NoYearWord letters title) (year : Nat)
    (media : Option MediaMeta) :
    ∃ front word rest value,
      titleWords letters title = front ++ word :: rest ∧
        parse (synthesize letters (.movie title (some year)) media) =
          if joinTitle front = "" then .unparseable
          else .movie (joinTitle front) (some value) := by
  obtain ⟨first, more, wordsEq⟩ :=
    List.exists_cons_of_ne_nil (titleWords_ne_nil letters title)
  rw [noYearWord_iff, wordsEq] at misread
  obtain ⟨front, word, rest, value, splitMore, yearless, found⟩ :=
    exists_firstRead misread
  change more = _ at splitMore
  have split : titleWords letters title = (first :: front) ++ word :: rest := by
    rw [wordsEq, splitMore]
    rfl
  have whole := tokensOf_movie letters title year media
  rw [split, List.append_assoc] at whole
  exact ⟨first :: front, word, rest, value, split,
    parse_movie whole (unread_movie unread year media) yearless found⟩

theorem movie_describes_iff {year : Nat} (early : 1900 ≤ year)
    (late : year ≤ 2099) (media : Option MediaMeta) :
    describes letters (parse (synthesize letters (.movie title (some year))
        media)) (.movie title (some year)) = true ↔
      NoEpisodeWord letters title ∧ NoYearWord letters title := by
  constructor
  · intro described
    by_cases unread : NoEpisodeWord letters title
    · refine ⟨unread, ?_⟩
      by_contra misread
      obtain ⟨front, word, rest, value, split, parsed⟩ :=
        parse_of_yearWord unread misread year media
      rw [parsed] at described
      split at described
      · cases described
      · rename_i named
        simp [describes, not_looseEq_of_stopped split named] at described
    · obtain ⟨front, word, rest, season, episode, -, parsed⟩ :=
        parse_of_episodeWord (tokensOf_movie letters title year media) unread
      rw [parsed] at described
      split at described <;> cases described
  · rintro ⟨unread, undated⟩
    obtain ⟨first, more, wordsEq⟩ :=
      List.exists_cons_of_ne_nil (titleWords_ne_nil letters title)
    obtain ⟨named, equal⟩ := joinTitle_titleWords letters title
    have whole := tokensOf_movie letters title year media
    rw [noYearWord_iff, wordsEq] at undated
    rw [wordsEq] at whole named equal
    rw [parse_movie whole (unread_movie unread year media) undated
      (releaseYear_toString early late), if_neg named]
    simp [describes, equal]

end Iff

/-- What a title is to be read back as: an episode of any numbers, or a film of
a year that counts as one. -/
def Readable : MediaSpec → Prop
  | .episode _ season episode => season < 4294967296 ∧ episode < 4294967296
  | .movie _ (some year) => 1900 ≤ year ∧ year ≤ 2099
  | .movie _ none | .track .. | .book .. => False

/-- No word of the title is taken for what follows the title. -/
def Unmistakable (letters : Letters) : MediaSpec → Prop
  | .episode title .. => NoEpisodeWord letters title
  | .movie title _ => NoEpisodeWord letters title ∧ NoYearWord letters title
  | .track .. | .book .. => True

variable {letters : Letters} {spec : MediaSpec}

theorem synthesize_describes_iff (letters : Letters) (readable : Readable spec)
    (media : Option MediaMeta) :
    describes letters (parse (synthesize letters spec media)) spec = true ↔
      Unmistakable letters spec := by
  cases spec with
  | episode title season episode =>
    exact episode_describes_iff season episode readable.1 readable.2 media
  | movie title year =>
    cases year with
    | some year => exact movie_describes_iff readable.1 readable.2 media
    | none => exact readable.elim
  | track artist album track => exact readable.elim
  | book author title => exact readable.elim

theorem resolve_nameless (originalPath : Option String)
    (media : Option MediaMeta) (path : String) :
    resolve letters spec none originalPath media path none =
      ((originalPath.toList ++ [path]).findSome?
        (describingStem letters spec)).getD
          (synthesize letters spec media) := by
  cases spec <;> rfl

theorem describingStem_eq_some {path stem : String} :
    describingStem letters spec path = some stem ↔
      Rust.Path.fileStem path = some stem ∧
        describes letters (parse stem) spec = true :=
  Option.filter_eq_some_iff

/-- A made-up title is read as its item exactly if none of the title's words is
taken for the episode number or the year.  Without a name that the release had
or a scene, the title of a file is then read as its item whatever the file is
called, and otherwise only if the file is or was called something that is. -/
theorem title_reads_back_iff (letters : Letters) {spec : MediaSpec}
    (readable : Readable spec) (media : Option MediaMeta) :
    (describes letters (parse (synthesize letters spec media)) spec = true ↔
      Unmistakable letters spec) ∧
    ∀ (originalPath : Option String) (path : String),
      describes letters (parse (resolve letters spec none originalPath media
        path none)) spec = true ↔
      Unmistakable letters spec ∨
        ∃ file ∈ originalPath.toList ++ [path], ∃ stem,
          Rust.Path.fileStem file = some stem ∧
            describes letters (parse stem) spec = true := by
  have made := synthesize_describes_iff letters readable media
  refine ⟨made, fun originalPath path => ?_⟩
  rw [resolve_nameless]
  cases found : (originalPath.toList ++ [path]).findSome?
      (describingStem letters spec) with
  | some stem =>
    obtain ⟨file, among, chosen⟩ := List.exists_of_findSome?_eq_some found
    have gate := describingStem_eq_some.mp chosen
    exact iff_of_true gate.2 (.inr ⟨file, among, stem, gate⟩)
  | none =>
    rw [List.findSome?_eq_none_iff] at found
    change describes letters (parse (synthesize letters spec media)) spec =
      true ↔ _
    rw [made, or_iff_left]
    rintro ⟨file, among, stem, gate⟩
    have unfound := found file among
    rw [describingStem_eq_some.mpr gate] at unfound
    cases unfound

/-- Letters of which one has a mark. -/
def acuteLetters : Letters where
  nfkd text := text.flatMap fun character =>
    if character = 'é' then ['e', Char.ofNat 0x301] else [character]
  isCombiningMark character :=
    0x300 ≤ character.toNat && character.toNat ≤ 0x36F
  toLowercase text := String.ofList (text.toList.map Char.toLower)
  sha256 _ := ⟨List.replicate 32 0, rfl⟩
  nfkd_ascii := by
    intro text ascii
    induction text with
    | nil => rfl
    | cons character text ih =>
      have plain : character ≠ 'é' := by
        rintro rfl
        exact absurd (ascii 'é' List.mem_cons_self) (by decide)
      rw [List.flatMap_cons, if_neg plain, ih fun other member =>
        ascii other (List.mem_cons_of_mem _ member)]
      rfl
  noMark_ascii := by
    intro character ascii
    simp only [Bool.and_eq_false_iff, decide_eq_false_iff_not]
    omega

theorem amelie_reads_back :
    describes acuteLetters (parse (synthesize acuteLetters
      (.movie "Amélie" (some 2001)) none)) (.movie "Amélie" (some 2001)) =
        true := by
  have titled : words acuteLetters "Amélie" = ["Amelie"] := by decide +kernel
  have readable : Readable (.movie "Amélie" (some 2001)) := by
    constructor <;> decide
  refine (title_reads_back_iff acuteLetters readable none).1.mpr ⟨?_, ?_⟩
  · intro word member
    rw [titled, List.mem_singleton] at member
    rw [member]
    decide +kernel
  · intro word member
    rw [titled] at member
    cases member

theorem year_in_title_misread :
    ¬ ∀ (letters : Letters) (spec : MediaSpec) (media : Option MediaMeta),
      Readable spec →
        describes letters (parse (synthesize letters spec media)) spec =
          true := by
  intro readsBack
  have readable : Readable (.movie "Blade Runner 2049" (some 2017)) := by
    constructor <;> decide
  have undated := ((synthesize_describes_iff acuteLetters readable none).mp
    (readsBack acuteLetters _ none readable)).2
  have titled : words acuteLetters "Blade Runner 2049" =
      ["Blade", "Runner", "2049"] := by decide +kernel
  have read : releaseYear "2049" = some 2049 := by decide +kernel
  have unread := undated "2049" (by simp [titled])
  rw [read] at unread
  cases unread

end Title

end Sharerr
