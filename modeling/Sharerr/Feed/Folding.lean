import Sharerr.Feed.Search

/-!
# Searching without a copy

A text of ASCII alone is searched in place, byte by byte in whatever case.  The
answer is the one its lowercased copy gives.
-/

namespace Sharerr

namespace Torznab

def isAsciiUpper (character : Char) : Prop := 'A' ≤ character ∧ character ≤ 'Z'

instance (character : Char) : Decidable (isAsciiUpper character) :=
  inferInstanceAs (Decidable (_ ∧ _))

/-- What is relied on of `str::to_lowercase`. -/
structure Unicode.Lowers (unicode : Unicode) : Prop where
  ascii : ∀ text, isAscii text = true →
    unicode.toLowercase text = Rust.toAsciiLowercase text
  noUpper : ∀ text, ∀ character ∈ (unicode.toLowercase text).toList,
    ¬ isAsciiUpper character

theorem isInfix_iff_take_drop {α : Type} {part whole : List α} :
    part <:+: whole ↔ ∃ start < whole.length + 1 - part.length,
      (whole.drop start).take part.length = part := by
  constructor
  · intro inside
    obtain ⟨front, back, rfl⟩ := inside
    refine ⟨front.length, ?_, ?_⟩
    · simp only [List.length_append]
      omega
    · rw [List.append_assoc, List.drop_left, List.take_left]
  · intro found
    obtain ⟨start, -, same⟩ := found
    rw [← same]
    exact (List.take_prefix _ _).isInfix.trans
      (List.drop_suffix _ _).isInfix

/-- `u8::to_ascii_lowercase`. -/
def lower (byte : UInt8) : UInt8 :=
  if 65 ≤ byte ∧ byte ≤ 90 then byte + 32 else byte

theorem eqIgnoreAsciiCase_iff {left right : UInt8} :
    eqIgnoreAsciiCase left right = true ↔ lower left = lower right :=
  decide_eq_true_iff

theorem all_zip_iff {window needle : List UInt8}
    (same : window.length = needle.length) :
    ((window.zip needle).all fun pair =>
        eqIgnoreAsciiCase pair.1 pair.2) = true ↔
      window.map lower = needle.map lower := by
  induction window generalizing needle with
  | nil =>
    have empty : needle = [] :=
      List.length_eq_zero_iff.mp same.symm
    subst empty
    exact iff_of_true rfl rfl
  | cons first window ih =>
    cases needle with
    | nil => cases same
    | cons other needle =>
      rw [List.zip_cons_cons, List.all_cons, Bool.and_eq_true,
        eqIgnoreAsciiCase_iff, ih (Nat.succ.inj same), List.map_cons,
        List.map_cons, List.cons.injEq]

/-- Some window is the needle in another case where the needle is part of the
text once both are in lower case. -/
theorem any_windows_iff (hay needle : List UInt8) :
    ((windows hay needle.length).any fun window =>
        (window.zip needle).all fun pair =>
          eqIgnoreAsciiCase pair.1 pair.2) = true ↔
      needle.map lower <:+: hay.map lower := by
  rw [isInfix_iff_take_drop, List.any_eq_true]
  simp only [windows, List.mem_map, List.mem_range, List.length_map,
    exists_exists_and_eq_and]
  refine exists_congr fun start => and_congr_right fun inside => ?_
  rw [all_zip_iff, List.map_take, List.map_drop]
  rw [List.length_take, List.length_drop]
  omega

theorem bytes_eq (text : String) :
    bytes text = text.toList.flatMap String.utf8EncodeChar := by
  rw [bytes, String.toUTF8_eq_toByteArray, ← String.utf8Encode_toList,
    List.utf8Encode, List.toList_data_toByteArray]

variable {text : String} {character : Char}

theorem bytes_ne_nil (some_ : text ≠ "") : bytes text ≠ [] := by
  intro none_
  rw [bytes_eq, List.flatMap_eq_nil_iff] at none_
  obtain ⟨first, rest, whole⟩ := List.exists_cons_of_ne_nil
    (mt String.toList_eq_nil_iff.mp some_)
  refine String.utf8EncodeChar_ne_nil (none_ first ?_)
  rw [whole]
  exact List.mem_cons_self

theorem encode_of_ascii (ascii : character.toNat < 128) :
    String.utf8EncodeChar character = [UInt8.ofNat character.toNat] := by
  have small : character.val.toNat ≤ 127 := Nat.le_of_lt_succ ascii
  unfold String.utf8EncodeChar
  dsimp only
  rw [if_pos small]
  rfl

theorem high_of_encode (high : 128 ≤ character.toNat) {byte : UInt8}
    (member : byte ∈ String.utf8EncodeChar character) :
    128 ≤ byte.toNat := by
  have bound : character.toNat < 0x110000 := by
    rcases character.valid with low | ⟨_, low⟩
    · exact Nat.lt_trans low (by decide)
    · exact low
  change character.val.toNat < 0x110000 at bound
  have notAscii : ¬ character.val.toNat ≤ 127 := Nat.not_le.mpr high
  have byte_ {value : Nat} (same : byte = UInt8.ofNat value)
      (at_ : 128 ≤ value % 256) : 128 ≤ byte.toNat := by
    rw [same, UInt8.toNat_ofNat']
    exact at_
  unfold String.utf8EncodeChar at member
  dsimp only at member
  rw [if_neg notAscii] at member
  split at member
  · rcases List.mem_cons.mp member with same | rest
    · exact byte_ same (by omega)
    · exact byte_ (List.mem_singleton.mp rest) (by omega)
  · split at member
    · simp only [List.mem_cons, List.not_mem_nil, or_false] at member
      rcases member with same | same | same
      · exact byte_ same (by omega)
      · exact byte_ same (by omega)
      · exact byte_ same (by omega)
    · simp only [List.mem_cons, List.not_mem_nil, or_false] at member
      rcases member with same | same | same | same
      · exact byte_ same (by omega)
      · exact byte_ same (by omega)
      · exact byte_ same (by omega)
      · exact byte_ same (by omega)

theorem isAscii_iff : isAscii text = true ↔
    ∀ character ∈ text.toList, character.toNat < 128 := by
  rw [isAscii, bytes_eq, List.all_eq_true]
  constructor
  · intro all character member
    by_contra high
    obtain ⟨byte, rest, encoded⟩ := List.exists_cons_of_ne_nil
      (String.utf8EncodeChar_ne_nil (c := character))
    have here : byte ∈ String.utf8EncodeChar character := by
      rw [encoded]
      exact List.mem_cons_self
    have low := all byte (List.mem_flatMap.mpr ⟨character, member, here⟩)
    rw [decide_eq_true_eq, UInt8.lt_iff_toNat_lt] at low
    have outside := high_of_encode (Nat.not_lt.mp high) here
    exact absurd low (Nat.not_lt.mpr outside)
  · intro all byte member
    obtain ⟨character, among, here⟩ := List.mem_flatMap.mp member
    have small := all character among
    rw [encode_of_ascii small, List.mem_singleton] at here
    rw [here, decide_eq_true_eq, UInt8.lt_iff_toNat_lt, UInt8.toNat_ofNat']
    exact Nat.lt_of_le_of_lt (Nat.mod_le _ _) small

theorem bytes_of_ascii
    (ascii : ∀ character ∈ text.toList, character.toNat < 128) :
    bytes text =
      text.toList.map fun character => UInt8.ofNat character.toNat := by
  rw [bytes_eq, List.map_eq_flatMap]
  exact List.flatMap_congr fun character member =>
    encode_of_ascii (ascii character member)

theorem map_ofNat_toNat {characters : List Char}
    (ascii : ∀ character ∈ characters, character.toNat < 128) :
    (characters.map fun character => UInt8.ofNat character.toNat).map
      (fun byte => Char.ofNat byte.toNat) = characters := by
  rw [List.map_map]
  refine (List.map_congr_left fun character member => ?_).trans
    (List.map_id characters)
  have small := ascii character member
  rw [Function.comp_apply, UInt8.toNat_ofNat', Nat.mod_eq_of_lt (by omega),
    Char.ofNat_toNat, id]

/-- In a text of ASCII a needle is found by its bytes. -/
theorem isInfix_bytes {hay needle : String}
    (ascii : ∀ character ∈ hay.toList, character.toNat < 128) :
    bytes needle <:+: bytes hay ↔ needle.toList <:+: hay.toList := by
  constructor
  · intro inside
    obtain ⟨front, back, whole⟩ := inside
    have low : ∀ character ∈ needle.toList, character.toNat < 128 := by
      rw [← isAscii_iff, isAscii, List.all_eq_true]
      intro byte member
      have all := isAscii_iff.mpr ascii
      rw [isAscii, ← whole, List.all_eq_true] at all
      exact all byte (List.mem_append_left _ (List.mem_append_right _ member))
    rw [bytes_of_ascii ascii, bytes_of_ascii low] at whole
    obtain ⟨most, after, parts, same, -⟩ := List.map_eq_append_iff.mp whole.symm
    obtain ⟨before, inner, parts_, -, same⟩ := List.map_eq_append_iff.mp same
    have equal : inner = needle.toList := by
      rw [← map_ofNat_toNat low, ← same]
      refine (map_ofNat_toNat fun character member => ?_).symm
      refine ascii character ?_
      rw [parts, parts_]
      exact List.mem_append_left _ (List.mem_append_right _ member)
    rw [parts, parts_, equal]
    exact ⟨before, after, rfl⟩
  · intro inside
    obtain ⟨front, back, whole⟩ := inside
    rw [bytes_eq, bytes_eq, ← whole, List.flatMap_append, List.flatMap_append]
    exact ⟨_, _, rfl⟩

theorem lower_of_not_upper (notUpper : ¬ isAsciiUpper character) {byte : UInt8}
    (member : byte ∈ String.utf8EncodeChar character) : lower byte = byte := by
  refine if_neg fun upper => ?_
  obtain ⟨atLeast, atMost⟩ := upper
  rw [UInt8.le_iff_toNat_le] at atLeast atMost
  change 65 ≤ byte.toNat at atLeast
  change byte.toNat ≤ 90 at atMost
  by_cases ascii : character.toNat < 128
  · rw [encode_of_ascii ascii, List.mem_singleton] at member
    rw [member, UInt8.toNat_ofNat', Nat.mod_eq_of_lt (by omega)]
      at atLeast atMost
    exact notUpper ⟨atLeast, atMost⟩
  · have high := high_of_encode (Nat.not_lt.mp ascii) member
    omega

theorem map_lower_bytes
    (noUpper : ∀ character ∈ text.toList, ¬ isAsciiUpper character) :
    (bytes text).map lower = bytes text := by
  refine (List.map_congr_left fun byte member => ?_).trans (List.map_id _)
  rw [bytes_eq] at member
  obtain ⟨character, among, here⟩ := List.mem_flatMap.mp member
  exact lower_of_not_upper (noUpper character among) here

theorem toList_toAsciiLowercase (text : String) :
    (Rust.toAsciiLowercase text).toList = text.toList.map fun character =>
      if isAsciiUpper character then Char.ofNat (character.toNat + 32)
      else character :=
  String.toList_ofList

theorem toNat_lowered (character : Char) :
    (if isAsciiUpper character then Char.ofNat (character.toNat + 32)
      else character).toNat =
        if isAsciiUpper character then character.toNat + 32
        else character.toNat := by
  by_cases upper : isAsciiUpper character
  · have atMost : character.toNat ≤ 90 := upper.2
    rw [if_pos upper, if_pos upper, Rust.toNat_ofNat (by omega)]
  · rw [if_neg upper, if_neg upper]

theorem toAsciiLowercase_ascii
    (ascii : ∀ character ∈ text.toList, character.toNat < 128) :
    ∀ character ∈ (Rust.toAsciiLowercase text).toList,
      character.toNat < 128 := by
  intro character member
  rw [toList_toAsciiLowercase] at member
  obtain ⟨old, among, rfl⟩ := List.mem_map.mp member
  rw [toNat_lowered]
  split
  · next upper =>
      have atMost : old.toNat ≤ 90 := upper.2
      omega
  · exact ascii old among

theorem toAsciiLowercase_noUpper (text : String) :
    ∀ character ∈ (Rust.toAsciiLowercase text).toList,
      ¬ isAsciiUpper character := by
  intro character member
  rw [toList_toAsciiLowercase] at member
  obtain ⟨old, -, rfl⟩ := List.mem_map.mp member
  intro again
  have atMost : _ ≤ 90 := again.2
  change (if isAsciiUpper old then Char.ofNat (old.toNat + 32)
    else old).toNat ≤ 90 at atMost
  rw [toNat_lowered] at atMost
  split at atMost
  · next upper =>
      have atLeast : 65 ≤ old.toNat := upper.1
      omega
  · next notUpper =>
      rw [if_neg notUpper] at again
      exact notUpper again

/-- Lowering the bytes of an ASCII text is lowering the text. -/
theorem map_lower_of_ascii
    (ascii : ∀ character ∈ text.toList, character.toNat < 128) :
    (bytes text).map lower = bytes (Rust.toAsciiLowercase text) := by
  rw [bytes_of_ascii ascii, bytes_of_ascii (toAsciiLowercase_ascii ascii),
    toList_toAsciiLowercase, List.map_map, List.map_map]
  refine List.map_congr_left fun character member => ?_
  have small := ascii character member
  rw [Function.comp_apply, Function.comp_apply, toNat_lowered]
  by_cases upper : isAsciiUpper character
  · have byte : 65 ≤ UInt8.ofNat character.toNat ∧
        UInt8.ofNat character.toNat ≤ 90 := by
      rw [UInt8.le_iff_toNat_le, UInt8.le_iff_toNat_le, UInt8.toNat_ofNat',
        Nat.mod_eq_of_lt (by omega)]
      exact upper
    rw [if_pos upper, lower, if_pos byte, UInt8.ofNat_add]
    rfl
  · rw [if_neg upper]
    refine lower_of_not_upper upper ?_
    rw [encode_of_ascii small]
    exact List.mem_singleton_self _

/-- The search in place finds what the search in a lowercased copy finds. -/
theorem contains_ci_agrees (unicode : Unicode) (lowers : unicode.Lowers)
    (hay : String) (query : SearchQuery) (needle : String)
    (made : query.needle unicode = some needle) :
    containsCi unicode hay needle =
      contains (unicode.toLowercase hay) needle := by
  by_cases ascii : isAscii hay = true
  · obtain ⟨lowered, some_⟩ := Option.filter_eq_some_iff.mp made
    have noUpper : ∀ character ∈ needle.toList, ¬ isAsciiUpper character := by
      obtain ⟨q, -, rfl⟩ := Option.map_eq_some_iff.mp lowered
      exact lowers.noUpper _
    have nonempty : (bytes needle).isEmpty = false := by
      rw [List.isEmpty_eq_false_iff]
      exact bytes_ne_nil (of_decide_eq_true some_)
    have low := isAscii_iff.mp ascii
    rw [containsCi, ascii, nonempty, lowers.ascii hay ascii]
    rw [Bool.not_true, if_neg Bool.false_ne_true, Bool.false_or,
      Bool.eq_iff_iff, any_windows_iff, map_lower_bytes noUpper,
      map_lower_of_ascii low, isInfix_bytes (toAsciiLowercase_ascii low),
      contains, decide_eq_true_iff]
  · rw [Bool.not_eq_true] at ascii
    rw [containsCi, ascii]
    rfl

/-- Tables of the letters of ASCII alone. -/
def asciiLetters : Unicode := ⟨Rust.toAsciiLowercase⟩

theorem asciiLetters_lowers : asciiLetters.Lowers where
  ascii _ _ := rfl
  noUpper := toAsciiLowercase_noUpper

/-- A search for the name of a show. -/
def quietCoast : SearchQuery where
  q := some " Quiet.COAST "
  season := none
  ep := none
  tvdbid := none
  tmdbid := none
  imdbid := none
  cat := none

theorem quiet_coast_agrees :
    containsCi asciiLetters "The.Quiet.Coast.S01E02" "quiet.coast" =
      contains (asciiLetters.toLowercase "The.Quiet.Coast.S01E02")
        "quiet.coast" :=
  contains_ci_agrees asciiLetters asciiLetters_lowers "The.Quiet.Coast.S01E02"
    quietCoast "quiet.coast" (by decide +kernel)

end Torznab

end Sharerr
