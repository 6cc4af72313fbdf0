import Sharerr.Scan.Titles

/-!
# Reading a title from the left

A title is read word by word, and the first word of the right shape is taken
for the episode number or the year.
-/

namespace Sharerr

namespace Scan

section FirstRead

variable {α : Type} {read : String → Option α}

theorem firstRead_skip {front : List String}
    (unread : ∀ word ∈ front, read word = none) (before rest : List String) :
    firstRead read before (front ++ rest) =
      firstRead read (before ++ front) rest := by
  induction front generalizing before with
  | nil => simp
  | cons word front ih =>
    rw [List.cons_append, firstRead, unread word List.mem_cons_self]
    change firstRead read (before ++ [word]) (front ++ rest) = _
    rw [ih (fun other member =>
      unread other (List.mem_cons_of_mem _ member)), List.append_assoc]
    rfl

theorem firstRead_found {front : List String}
    (unread : ∀ word ∈ front, read word = none) {word : String} {value : α}
    (found : read word = some value) (before rest : List String) :
    firstRead read before (front ++ word :: rest) =
      some (before ++ front, value) := by
  rw [firstRead_skip unread, firstRead, found]

theorem firstRead_none {tokens : List String}
    (unread : ∀ word ∈ tokens, read word = none) (before : List String) :
    firstRead read before tokens = none := by
  rw [← List.append_nil tokens, firstRead_skip unread]
  rfl

/-- Words of which some can be read, around the first of these. -/
theorem exists_firstRead {tokens : List String}
    (someRead : ¬ ∀ word ∈ tokens, read word = none) :
    ∃ front word rest value, tokens = front ++ word :: rest ∧
      (∀ other ∈ front, read other = none) ∧ read word = some value := by
  induction tokens with
  | nil => exact absurd (by simp) someRead
  | cons first tokens ih =>
    cases found : read first with
    | some value => exact ⟨[], first, tokens, value, rfl, by simp, found⟩
    | none =>
      have later : ¬ ∀ word ∈ tokens, read word = none := by
        intro unread
        refine someRead fun word member => ?_
        rcases List.mem_cons.mp member with rfl | member
        · exact found
        · exact unread word member
      obtain ⟨front, word, rest, value, split, unread, found⟩ := ih later
      refine ⟨first :: front, word, rest, value, by rw [split]; rfl, ?_,
        found⟩
      intro other member
      rcases List.mem_cons.mp member with rfl | member
      · assumption
      · exact unread other member

end FirstRead

/-- The words that a title is read by. -/
def tokensOf (title : String) : List String :=
  Rust.splitWhitespace (humanize title).toList []

section Parse

variable {title : String} {front rest : List String} {word : String}

theorem parse_episode {season episode : Nat}
    (tokens : tokensOf title = front ++ word :: rest)
    (unread : ∀ other ∈ front, seasonEpisode other = none)
    (found : seasonEpisode word = some (season, episode)) :
    parse title = if joinTitle front = "" then .unparseable
      else .episode (joinTitle front) season episode := by
  have first := firstRead_found unread found [] rest
  rw [List.nil_append] at first
  rw [← tokens] at first
  unfold parse
  dsimp only
  rw [show Rust.splitWhitespace (humanize title).toList [] = tokensOf title
    from rfl, first]

theorem parse_movie {first : String} {year : Nat}
    (tokens : tokensOf title = first :: (front ++ word :: rest))
    (unread : ∀ other ∈ tokensOf title, seasonEpisode other = none)
    (yearless : ∀ other ∈ front, releaseYear other = none)
    (found : releaseYear word = some year) :
    parse title = if joinTitle (first :: front) = "" then .unparseable
      else .movie (joinTitle (first :: front)) (some year) := by
  have noEpisode := firstRead_none unread []
  have dated := firstRead_found yearless found [first] rest
  unfold parse
  dsimp only
  rw [show Rust.splitWhitespace (humanize title).toList [] = tokensOf title
    from rfl, noEpisode]
  dsimp only
  rw [tokens]
  simp only [List.take_succ_cons, List.take_zero, List.drop_succ_cons,
    List.drop_zero, dated]
  rfl

end Parse

/-- A word that a dotted title keeps apart. -/
structure IsToken (token : String) : Prop where
  isWord : Rust.IsWord token
  noDot : '.' ∉ token.toList
  noUnderscore : '_' ∉ token.toList

theorem tokensOf_intercalate {tokens : List String}
    (all : ∀ token ∈ tokens, IsToken token) :
    tokensOf (String.intercalate "." tokens) = tokens := by
  have kept : (tokens.map String.toList).map (List.map fun character =>
      if character = '.' ∨ character = '_' then ' ' else character) =
      tokens.map String.toList := by
    rw [List.map_map]
    apply List.map_congr_left
    intro token member
    have isToken := all token member
    refine (List.map_congr_left fun character among => if_neg ?_).trans
      (List.map_id _)
    rintro (rfl | rfl)
    · exact isToken.noDot among
    · exact isToken.noUnderscore among
  rw [tokensOf, humanize, Rust.splitWhitespace_trim, String.toList_ofList,
    String.toList_intercalate, Rust.map_intercalate, kept]
  have blank : Rust.isWhitespace ' ' = true := rfl
  exact Rust.splitWhitespace_intercalate blank fun token member =>
    (all token member).isWord

end Scan

end Sharerr
