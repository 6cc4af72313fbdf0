import Mathlib.Data.List.TakeWhile
import Sharerr.Rust.Basic

/-!
# The words of a text

A text falls into the runs of its characters that are not whitespace.  Words
with one whitespace character between them are the words of that text, and so
they are of it trimmed.
-/

namespace Rust

/-- `str::trim_matches`. -/
def trimMatches (trims : Char → Bool) (text : String) : String :=
  String.ofList
    (((text.toList.dropWhile trims).reverse.dropWhile trims).reverse)

/-- `str::split_whitespace`; `word` is what was read of the current word, last
character first. -/
def splitWhitespace : List Char → List Char → List String
  | [], [] => []
  | [], word => [String.ofList word.reverse]
  | character :: rest, word =>
    if isWhitespace character then
      match word with
      | [] => splitWhitespace rest []
      | word => String.ofList word.reverse :: splitWhitespace rest []
    else splitWhitespace rest (character :: word)

variable {character : Char} {text word : List Char} {α : Type} {read : String}

theorem splitWhitespace_space (blank : isWhitespace character = true)
    (rest word : List Char) :
    splitWhitespace (character :: rest) word =
      splitWhitespace [] word ++ splitWhitespace rest [] := by
  cases word with
  | nil => exact if_pos blank
  | cons last word => exact if_pos blank

theorem splitWhitespace_letter (letter : isWhitespace character = false)
    (rest word : List Char) :
    splitWhitespace (character :: rest) word =
      splitWhitespace rest (character :: word) := by
  cases word with
  | nil => exact if_neg (by simp [letter])
  | cons last word => exact if_neg (by simp [letter])

section Trimmed

variable {trims keep : Char → Bool}

theorem filter_dropWhile (apart : ∀ character, trims character = true →
    keep character = false) (text : List Char) :
    (text.dropWhile trims).filter keep = text.filter keep := by
  induction text with
  | nil => rfl
  | cons character text ih =>
    rw [List.dropWhile_cons]
    split
    · rename_i trimmed
      rw [ih, List.filter_cons_of_neg (by simp [apart character trimmed])]
    · rfl

/-- Trimming leaves the characters that are not trimmed. -/
theorem filter_trimMatches (apart : ∀ character, trims character = true →
    keep character = false) (text : String) :
    (trimMatches trims text).toList.filter keep = text.toList.filter keep := by
  rw [trimMatches, String.toList_ofList, List.filter_reverse,
    filter_dropWhile apart, List.filter_reverse, List.reverse_reverse,
    filter_dropWhile apart]

theorem mem_of_mem_trimMatches {text : String} {character : Char}
    (member : character ∈ (trimMatches trims text).toList) :
    character ∈ text.toList := by
  rw [trimMatches, String.toList_ofList, List.mem_reverse] at member
  have behind := (List.dropWhile_sublist _).subset member
  exact (List.dropWhile_sublist _).subset (List.mem_reverse.mp behind)

theorem trimMatches_of_none {text : String}
    (none : ∀ character ∈ text.toList, trims character = false) :
    trimMatches trims text = text := by
  have kept : ∀ part : List Char, (∀ character ∈ part,
      trims character = false) → part.dropWhile trims = part := by
    intro part none
    rw [List.dropWhile_eq_self_iff]
    intro nonempty
    simp [none _ (List.getElem_mem nonempty)]
  rw [trimMatches, kept _ none, kept _ (by simpa using none),
    List.reverse_reverse, String.ofList_toList]

end Trimmed

structure IsWord (word : String) : Prop where
  nonempty : word.toList ≠ []
  plain : ∀ character ∈ word.toList, isWhitespace character = false

theorem splitWhitespace_append {space : Char}
    (blank : isWhitespace space = true) (left right word : List Char) :
    splitWhitespace (left ++ space :: right) word =
      splitWhitespace left word ++ splitWhitespace right [] := by
  induction left generalizing word with
  | nil => exact splitWhitespace_space blank right word
  | cons character left ih =>
    cases kind : isWhitespace character with
    | true =>
      rw [List.cons_append, splitWhitespace_space kind,
        splitWhitespace_space kind, ih, List.append_assoc]
    | false =>
      rw [List.cons_append, splitWhitespace_letter kind,
        splitWhitespace_letter kind, ih]

theorem splitWhitespace_plain
    (plain : ∀ character ∈ text, isWhitespace character = false)
    (word : List Char) :
    splitWhitespace text word =
      splitWhitespace [] (text.reverse ++ word) := by
  induction text generalizing word with
  | nil => rfl
  | cons character text ih =>
    rw [splitWhitespace_letter (plain character List.mem_cons_self),
      ih (fun other member => plain other (List.mem_cons_of_mem _ member)),
      List.reverse_cons, List.append_assoc]
    rfl

theorem splitWhitespace_nil (nonempty : word ≠ []) :
    splitWhitespace [] word = [String.ofList word.reverse] := by
  cases word with
  | nil => exact absurd rfl nonempty
  | cons last word => rfl

theorem splitWhitespace_word {word : String} (isWord : IsWord word) :
    splitWhitespace word.toList [] = [word] := by
  rw [splitWhitespace_plain isWord.plain, List.append_nil,
    splitWhitespace_nil (by simpa using isWord.nonempty),
    List.reverse_reverse, String.ofList_toList]

theorem map_intercalate {β : Type} (f : α → β) (separator : List α)
    (parts : List (List α)) : (separator.intercalate parts).map f =
      (separator.map f).intercalate (parts.map (List.map f)) := by
  induction parts with
  | nil => rfl
  | cons first parts ih =>
    cases parts with
    | nil => simp
    | cons second parts =>
      rw [List.intercalate_cons_cons, List.map_append, List.map_append, ih]
      simp

theorem filter_intercalate {keep : α → Bool} {separator : List α}
    (dropped : separator.filter keep = []) (parts : List (List α)) :
    (separator.intercalate parts).filter keep = parts.flatten.filter keep := by
  induction parts with
  | nil => rfl
  | cons first parts ih =>
    cases parts with
    | nil => simp
    | cons second parts =>
      rw [List.intercalate_cons_cons, List.filter_append,
        List.filter_append, ih, dropped]
      simp

theorem mem_intercalate {separator : List α} {parts : List (List α)} {value : α}
    (member : value ∈ separator.intercalate parts) :
    value ∈ separator ∨ value ∈ parts.flatten := by
  induction parts with
  | nil => cases member
  | cons first parts ih =>
    cases parts with
    | nil => exact .inr (by simpa using member)
    | cons second parts =>
      rw [List.intercalate_cons_cons, List.mem_append,
        List.mem_append] at member
      rw [List.flatten_cons, List.mem_append]
      rcases member with (here | between) | later
      · exact .inr (.inl here)
      · exact .inl between
      · exact (ih later).imp_right .inr

/-- Joined words are read again. -/
theorem splitWhitespace_intercalate {space : Char}
    (blank : isWhitespace space = true) {words : List String}
    (all : ∀ word ∈ words, IsWord word) :
    splitWhitespace ([space].intercalate (words.map String.toList)) [] =
      words := by
  induction words with
  | nil => rfl
  | cons first words ih =>
    have here := splitWhitespace_word (all first List.mem_cons_self)
    have rest := ih fun word member =>
      all word (List.mem_cons_of_mem _ member)
    cases words with
    | nil => simpa using here
    | cons second words =>
      have joined : [space].intercalate
          ((first :: second :: words).map String.toList) =
          first.toList ++ space ::
            [space].intercalate ((second :: words).map String.toList) := by
        simp
      rw [joined, splitWhitespace_append blank, here, rest]
      rfl

theorem splitWhitespace_dropWhile (text : List Char) :
    splitWhitespace (text.dropWhile isWhitespace) [] =
      splitWhitespace text [] := by
  induction text with
  | nil => rfl
  | cons character text ih =>
    cases kind : isWhitespace character with
    | true =>
      rw [List.dropWhile_cons_of_pos kind, ih, splitWhitespace_space kind]
      rfl
    | false => rw [List.dropWhile_cons_of_neg (by simp [kind])]

theorem splitWhitespace_rdropWhile (text : List Char) :
    splitWhitespace (text.rdropWhile isWhitespace) [] =
      splitWhitespace text [] := by
  induction text using List.reverseRecOn with
  | nil => rfl
  | append_singleton text character ih =>
    by_cases blank : isWhitespace character = true
    · rw [List.rdropWhile_concat_pos _ _ _ blank, ih,
        splitWhitespace_append blank text []]
      exact (List.append_nil _).symm
    · rw [List.rdropWhile_concat_neg _ _ _ blank]

/-- Whitespace at the ends belongs to no word. -/
theorem splitWhitespace_trim (text : String) :
    splitWhitespace (trim text).toList [] = splitWhitespace text.toList [] := by
  have trimmed : (trim text).toList =
      (text.toList.dropWhile isWhitespace).rdropWhile isWhitespace := by
    rw [trim, String.toList_ofList]
    rfl
  rw [trimmed, splitWhitespace_rdropWhile, splitWhitespace_dropWhile]

theorem flatMap_splitWhitespace_nil (word : List Char) :
    (splitWhitespace [] word).flatMap String.toList = word.reverse := by
  cases word with
  | nil => rfl
  | cons last word =>
    rw [splitWhitespace_nil (List.cons_ne_nil _ _), List.flatMap_singleton,
      String.toList_ofList]

/-- No other characters are lost. -/
theorem flatMap_splitWhitespace (text word : List Char) :
    (splitWhitespace text word).flatMap String.toList =
      word.reverse ++ text.filter fun character =>
        !isWhitespace character := by
  induction text generalizing word with
  | nil => simpa using flatMap_splitWhitespace_nil word
  | cons character text ih =>
    cases kind : isWhitespace character with
    | true =>
      rw [splitWhitespace_space kind, List.flatMap_append, ih,
        flatMap_splitWhitespace_nil,
        List.filter_cons_of_neg (by simp [kind])]
      rfl
    | false =>
      rw [splitWhitespace_letter kind, ih,
        List.filter_cons_of_pos (by simp [kind]), List.reverse_cons,
        List.append_assoc]
      rfl

theorem nonempty_of_mem_splitWhitespace_nil
    (member : read ∈ splitWhitespace [] word) : read.toList ≠ [] := by
  cases word with
  | nil => cases member
  | cons last word =>
    rw [splitWhitespace_nil (List.cons_ne_nil _ _),
      List.mem_singleton] at member
    simp [member]

theorem nonempty_of_mem_splitWhitespace
    (member : read ∈ splitWhitespace text word) : read.toList ≠ [] := by
  induction text generalizing word with
  | nil => exact nonempty_of_mem_splitWhitespace_nil member
  | cons character text ih =>
    cases kind : isWhitespace character with
    | true =>
      rw [splitWhitespace_space kind, List.mem_append] at member
      rcases member with ended | later
      · exact nonempty_of_mem_splitWhitespace_nil ended
      · exact ih later
    | false =>
      rw [splitWhitespace_letter kind] at member
      exact ih member

theorem mem_of_mem_splitWhitespace (member : read ∈ splitWhitespace text [])
    (among : character ∈ read.toList) :
    character ∈ text ∧ isWhitespace character = false := by
  have kept : character ∈ (splitWhitespace text []).flatMap String.toList :=
    List.mem_flatMap.mpr ⟨read, member, among⟩
  rw [flatMap_splitWhitespace, List.reverse_nil, List.nil_append,
    List.mem_filter] at kept
  simpa using kept

end Rust
