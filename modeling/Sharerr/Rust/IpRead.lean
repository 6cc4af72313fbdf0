import Sharerr.Rust.IpText

/-!
# A printed address is read back

Every reader takes what its printer wrote off the front of a text, where
something follows that cannot belong to it.  The groups between two colons
were zeros, so reading them as zeros gives the address again.
-/

namespace Rust

/-- Bytes as the characters they are in ASCII. -/
def asciiText (bytes : List UInt8) : List Char :=
  bytes.map fun byte => Char.ofNat byte.toNat

@[simp] theorem asciiText_append (left right : List UInt8) :
    asciiText (left ++ right) = asciiText left ++ asciiText right :=
  List.map_append

@[simp] theorem asciiText_cons (byte : UInt8) (bytes : List UInt8) :
    asciiText (byte :: bytes) = Char.ofNat byte.toNat :: asciiText bytes :=
  rfl

namespace IpAddr

/-- Digits that stand for values. -/
def Spells (radix : Nat) (digits : List Char) (values : List Nat) : Prop :=
  List.Forall₂ (fun character value => toDigit radix character = some value)
    digits values

/-- Nothing that goes on a number. -/
def Stops (radix : Nat) (rest : List Char) : Prop :=
  ∀ character ∈ rest.head?, toDigit radix character = none

section Numbers

variable {radix maxDigits bound : Nat} {zeros : Bool}
  {digits rest : List Char} {values : List Nat}

theorem takeWhile_spells (spells : Spells radix digits values)
    (stops : Stops radix rest) :
    (digits ++ rest).takeWhile (fun character =>
      (toDigit radix character).isSome) = digits := by
  induction spells with
  | nil =>
    cases rest with
    | nil => rfl
    | cons character rest =>
      refine List.takeWhile_cons_of_neg ?_
      rw [stops character rfl]
      exact Bool.false_ne_true
  | @cons character value digits values here _ ih =>
    rw [List.cons_append, List.takeWhile_cons_of_pos, ih]
    rw [here]
    rfl

theorem filterMap_spells (spells : Spells radix digits values) :
    digits.filterMap (toDigit radix) = values := by
  induction spells with
  | nil => rfl
  | cons here _ ih => rw [List.filterMap_cons_some here, ih]

theorem readNumber_spells (spells : Spells radix digits values)
    (stops : Stops radix rest) (some_ : digits ≠ [])
    (few : digits.length ≤ maxDigits)
    (plain : zeros = true ∨ digits.head? ≠ some '0' ∨ digits.length ≤ 1)
    (fits : values.foldl (fun value digit => value * radix + digit) 0 <
      bound) :
    readNumber radix maxDigits bound zeros (digits ++ rest) =
      some (values.foldl (fun value digit => value * radix + digit) 0,
        rest) := by
  have length : digits.length ≠ 0 := by simpa using some_
  rw [readNumber, takeWhile_spells spells stops]
  simp only [filterMap_spells spells, List.drop_left]
  rw [if_neg (by omega), if_neg ?_, if_neg (by omega)]
  rintro ⟨noZeros, zero, long⟩
  rcases plain with zeros_ | first | short
  · exact noZeros zeros_
  · exact first zero
  · omega

end Numbers

theorem toDigit_digitByte {digit : Nat} (small : digit < 10) :
    toDigit 10 (Char.ofNat (digitByte digit).toNat) = some digit := by
  have all : ∀ digit < 10,
      toDigit 10 (Char.ofNat (digitByte digit).toNat) = some digit := by
    decide
  exact all digit small

theorem toDigit_hexDigitByte {digit : Nat} (small : digit < 16) :
    toDigit 16 (Char.ofNat (hexDigitByte digit).toNat) = some digit := by
  have all : ∀ digit < 16,
      toDigit 16 (Char.ofNat (hexDigitByte digit).toNat) = some digit := by
    decide
  exact all digit small

/-- Digits printed from the last to the first spell the number. -/
theorem spells_digits {radix number : Nat} {print : Nat → UInt8}
    (two : 1 < radix)
    (printed : ∀ digit < radix,
      toDigit radix (Char.ofNat (print digit).toNat) = some digit) :
    Spells radix (asciiText ((Nat.digits radix number).map print).reverse)
      (Nat.digits radix number).reverse := by
  rw [asciiText, List.map_reverse, List.map_map, Spells,
    List.forall₂_reverse_iff, List.forall₂_map_left_iff, List.forall₂_same]
  intro digit member
  exact printed digit (Nat.digits_lt_base two member)

theorem foldl_digits (radix number : Nat) :
    (Nat.digits radix number).reverse.foldl
      (fun value digit => value * radix + digit) 0 = number := by
  rw [List.foldl_reverse]
  conv_rhs => rw [← Nat.ofDigits_digits radix number]
  rw [Nat.ofDigits_eq_foldr]
  congr 1
  funext digit value
  simp only [Nat.cast_id]
  ring

theorem decimal_plain : ∀ number < 256,
    (asciiText (decimal number)).head? ≠ some '0' ∨
      (asciiText (decimal number)).length ≤ 1 := by
  decide +kernel

theorem spells_decimal (number : Nat) : ∃ values,
    Spells 10 (asciiText (decimal number)) values ∧
      values.foldl (fun value digit => value * 10 + digit) 0 = number := by
  rw [decimal]
  split
  · next zero => exact ⟨[0], .cons (by decide) .nil, zero.symm⟩
  · exact ⟨_, spells_digits (by decide) fun _ => toDigit_digitByte,
      foldl_digits 10 number⟩

theorem spells_hexadecimal (number : Nat) : ∃ values,
    Spells 16 (asciiText (hexadecimal number)) values ∧
      values.foldl (fun value digit => value * 16 + digit) 0 = number := by
  rw [hexadecimal]
  split
  · next zero => exact ⟨[0], .cons (by decide) .nil, zero.symm⟩
  · exact ⟨_, spells_digits (by decide) fun _ => toDigit_hexDigitByte,
      foldl_digits 16 number⟩

theorem hexadecimal_ne_nil (number : Nat) : hexadecimal number ≠ [] := by
  unfold hexadecimal
  split
  · exact List.cons_ne_nil _ _
  · next positive => simpa using Nat.digits_ne_nil_iff_ne_zero.mpr positive

theorem readNumber_decimal {number : Nat} (small : number < 256)
    {rest : List Char} (stops : Stops 10 rest) :
    readNumber 10 3 256 false (asciiText (decimal number) ++ rest) =
      some (number, rest) := by
  obtain ⟨values, spells, value⟩ := spells_decimal number
  have few := length_decimal_octet number
  rw [Nat.mod_eq_of_lt small] at few
  conv_rhs => rw [← value]
  exact readNumber_spells spells stops
    (by simpa [asciiText] using decimal_ne_nil _)
    (by simpa [asciiText] using few) (.inr (decimal_plain number small))
    (by rwa [value])

theorem readNumber_hexadecimal {number : Nat} (small : number < 65536)
    {rest : List Char} (stops : Stops 16 rest) :
    readNumber 16 4 65536 true (asciiText (hexadecimal number) ++ rest) =
      some (number, rest) := by
  obtain ⟨values, spells, value⟩ := spells_hexadecimal number
  conv_rhs => rw [← value]
  exact readNumber_spells spells stops
    (by simpa [asciiText] using hexadecimal_ne_nil _)
    (by simpa [asciiText] using length_hexadecimal small) (.inl rfl)
    (by rwa [value])

theorem readOctet_decimal {number : Nat} {rest : List Char}
    (stops : Stops 10 rest) :
    readOctet 0 (asciiText (decimal (number % 256)) ++ rest) =
        some (number % 256, rest) ∧
      ∀ index, readOctet (index + 1)
        ('.' :: (asciiText (decimal (number % 256)) ++ rest)) =
          some (number % 256, rest) := by
  have read := readNumber_decimal (Nat.mod_lt number (by decide)) stops
  exact ⟨read, fun index => read⟩

theorem readIpv4_v4Text {bits : Nat} (small : bits < 4294967296)
    {rest : List Char} (stops : Stops 10 rest) :
    readIpv4 (asciiText (v4Text bits) ++ rest) = some (bits, rest) := by
  have dot (rest : List Char) : Stops 10 ('.' :: rest) := by
    rintro character ⟨⟩
    decide
  have mark : Char.ofNat (46 : UInt8).toNat = '.' := by decide
  simp only [v4Text, asciiText_append, asciiText_cons, mark, List.append_assoc,
    List.cons_append]
  simp only [readIpv4, (readOctet_decimal (dot _)).1,
    (readOctet_decimal (dot _)).2 0, (readOctet_decimal (dot _)).2 1,
    (readOctet_decimal stops).2 2, Option.bind_eq_bind, Option.bind_some,
    Option.pure_def]
  refine congrArg some (Prod.ext ?_ rfl)
  simp only
  omega

/-- There is no IPv4 address in front of a text without dots. -/
theorem readIpv4_eq_none {text : List Char} (plain : '.' ∉ text) :
    readIpv4 text = none := by
  rw [readIpv4]
  cases first : readOctet 0 text with
  | none => rfl
  | some read =>
    obtain ⟨number, rest⟩ := read
    have later : ∃ taken, rest = text.drop taken := by
      simp only [readOctet, readSeparated, if_true, readNumber] at first
      split at first
      · cases first
      · split at first
        · cases first
        · split at first
          · cases first
          · cases first
            exact ⟨_, rfl⟩
    obtain ⟨taken, rfl⟩ := later
    have none_ : readOctet 1 (text.drop taken) = none := by
      simp only [readOctet, readSeparated, Nat.one_ne_zero, if_false]
      split
      · rfl
      · next character rest same =>
          refine if_neg ?_
          rintro rfl
          refine plain (List.drop_subset taken text ?_)
          rw [same]
          exact List.mem_cons_self
    simp [none_]

/-- What stands behind the groups of a printed address: nothing, or the two
colons zeros were left out at. -/
def Ends (rest : List Char) : Prop :=
  rest = [] ∨ ∃ more, rest = ':' :: ':' :: more

/-- Groups with a colon in front of each. -/
def groupsTail : List Nat → List Char
  | [] => []
  | group :: groups =>
    ':' :: (asciiText (hexadecimal group) ++ groupsTail groups)

theorem asciiText_groupsText (group : Nat) (groups : List Nat) :
    asciiText (groupsText (group :: groups)) =
      asciiText (hexadecimal group) ++ groupsTail groups := by
  induction groups generalizing group with
  | nil => rw [groupsText, groupsTail, List.append_nil]
  | cons next groups ih =>
    rw [groupsText, asciiText_append, asciiText_cons, ih next, groupsTail]
    · rfl
    · exact List.cons_ne_nil _ _

section Groups

variable {left index group : Nat} {groups : List Nat} {rest : List Char}

theorem Ends.stops {radix : Nat} (ends : Ends rest) :
    Stops radix rest := by
  have colon : toDigit radix ':' = none := by
    rw [toDigit]
    exact if_neg (Nat.lt_irrefl radix)
  rcases ends with rfl | ⟨more, rfl⟩
  · rintro character ⟨⟩
  · rintro character ⟨⟩
    exact colon

theorem readGroups_group {text : List Char}
    (noAddress : readSeparated ':' index readIpv4 text = none)
    (number : readSeparated ':' index (readNumber 16 4 65536 true) text =
      some (group, rest)) :
    readGroups (left + 1) index text =
      (group :: (readGroups left (index + 1) rest).1,
        (readGroups left (index + 1) rest).2) := by
  have embedded : (if left = 0 then none
      else readSeparated ':' index readIpv4 text) = none := by
    rw [noAddress, ite_self]
  rw [readGroups, embedded, number]

theorem readGroups_stop {text : List Char}
    (noAddress : readSeparated ':' index readIpv4 text = none)
    (number : readSeparated ':' index (readNumber 16 4 65536 true) text =
      none) :
    readGroups left index text = ([], false, text) := by
  cases left with
  | zero => rfl
  | succ left =>
    have embedded : (if left = 0 then none
        else readSeparated ':' index readIpv4 text) = none := by
      rw [noAddress, ite_self]
    rw [readGroups, embedded, number]

theorem readNumber_eq_none {radix maxDigits bound : Nat} {zeros : Bool}
    (stops : Stops radix rest) :
    readNumber radix maxDigits bound zeros rest = none := by
  have noDigits : rest.takeWhile (fun character =>
      (toDigit radix character).isSome) = [] :=
    takeWhile_spells .nil stops
  rw [readNumber, noDigits]
  exact if_pos (.inl rfl)

theorem readSeparated_eq_none {α : Type}
    {inner : List Char → Option (α × List Char)} {text : List Char}
    (here : inner text = none)
    (later : ∀ more, text = ':' :: more → inner more = none) :
    readSeparated ':' index inner text = none := by
  unfold readSeparated
  split
  · exact here
  · split
    · rfl
    · next character more =>
        split
        · next colon => exact later more (by rw [colon])
        · rfl

theorem readGroups_ends (ends : Ends rest) (plain : '.' ∉ rest) :
    readGroups left index rest = ([], false, rest) := by
  have stops : Stops 16 rest := ends.stops
  refine readGroups_stop
    (readSeparated_eq_none (readIpv4_eq_none plain) ?_)
    (readSeparated_eq_none (readNumber_eq_none stops) ?_)
  · rintro more rfl
    exact readIpv4_eq_none fun member => plain (List.mem_cons_of_mem _ member)
  · rintro more rfl
    rcases ends with empty | ⟨more, same⟩
    · cases empty
    · cases same
      refine readNumber_eq_none ?_
      rintro character ⟨⟩
      exact stops ':' rfl

theorem stops_groupsTail (groups : List Nat) (ends : Ends rest) :
    Stops 16 (groupsTail groups ++ rest) := by
  cases groups with
  | nil => exact ends.stops
  | cons group groups =>
    rintro character ⟨⟩
    decide

/-- Groups behind colons are read up to where they end. -/
theorem readGroups_tail (small : ∀ group ∈ groups, group < 65536)
    (ends : Ends rest) (plain : '.' ∉ groupsTail groups ++ rest)
    (few : groups.length ≤ left) :
    readGroups left (index + 1) (groupsTail groups ++ rest) =
      (groups, false, rest) := by
  induction groups generalizing left index with
  | nil => exact readGroups_ends ends plain
  | cons group groups ih =>
    rw [groupsTail, List.cons_append, List.append_assoc] at plain ⊢
    obtain ⟨-, plain⟩ := not_or.mp (List.mem_cons.not.mp plain)
    obtain ⟨-, plain_⟩ := not_or.mp (List.mem_append.not.mp plain)
    obtain ⟨here, later⟩ := List.forall_mem_cons.mp small
    have number := readNumber_hexadecimal here (stops_groupsTail groups ends)
    have noAddress : readSeparated ':' (index + 1) readIpv4
        (':' :: (asciiText (hexadecimal group) ++
          (groupsTail groups ++ rest))) = none := readIpv4_eq_none plain
    cases left with
    | zero => cases few
    | succ left =>
      rw [readGroups_group noAddress number,
        ih later plain_ (Nat.le_of_succ_le_succ few)]

theorem readGroups_groupsText (small : ∀ group ∈ groups, group < 65536)
    (ends : Ends rest) (plain : '.' ∉ asciiText (groupsText groups) ++ rest)
    (few : groups.length ≤ left) :
    readGroups left 0 (asciiText (groupsText groups) ++ rest) =
      (groups, false, rest) := by
  cases groups with
  | nil => exact readGroups_ends ends plain
  | cons group groups =>
    rw [asciiText_groupsText, List.append_assoc] at plain ⊢
    obtain ⟨-, plain_⟩ := not_or.mp (List.mem_append.not.mp plain)
    obtain ⟨here, later⟩ := List.forall_mem_cons.mp small
    have number := readNumber_hexadecimal here (stops_groupsTail groups ends)
    cases left with
    | zero => cases few
    | succ left =>
      rw [@readGroups_group left 0 group _ _ (readIpv4_eq_none plain)
        number, readGroups_tail later ends plain_
          (Nat.le_of_succ_le_succ few)]

end Groups

/-- Zeros from one place to another. -/
def AllZeros (groups : List Nat) (span : Span) : Prop :=
  ∀ index, span.start ≤ index → index < span.start + span.len →
    groups[index]? = some 0

/-- What the loop knows behind a number of groups: two runs of zeros that end
by there, the current one exactly there. -/
structure RunsOf (groups : List Nat) (done : Nat) (spans : Span × Span) :
    Prop where
  longest : AllZeros groups spans.1
  within : spans.1.start + spans.1.len ≤ done
  current : AllZeros groups spans.2
  here : spans.2.len = 0 ∨ spans.2.start + spans.2.len = done

section Zeros

variable {groups : List Nat} {done group : Nat} {spans : Span × Span}

theorem allZeros_empty (groups : List Nat) (start : Nat) :
    AllZeros groups ⟨start, 0⟩ :=
  fun _ from_ below => absurd from_ (Nat.not_le_of_lt below)

/-- A run of zeros that ends at a zero, or a new one, goes on with it. -/
theorem allZeros_longer {current : Span} (zeros : AllZeros groups current)
    (here : current.len = 0 ∨ current.start + current.len = done)
    (found : groups[done]? = some 0) {longer : Span}
    (start : longer.start =
      if current.len = 0 then done else current.start)
    (len : longer.len = current.len + 1) :
    AllZeros groups longer ∧ longer.start + longer.len = done + 1 := by
  have ends : longer.start + longer.len = done + 1 := by
    rw [start, len]
    split <;> omega
  refine ⟨fun index from_ below => ?_, ends⟩
  by_cases last : index = done
  · rw [last]
    exact found
  · split at start
    · omega
    · exact zeros index (by omega) (by omega)

theorem RunsOf.step (runs : RunsOf groups done spans)
    (found : groups[done]? = some group) :
    RunsOf groups (done + 1) (spanStep spans (group, done)) := by
  obtain ⟨longest, current⟩ := spans
  obtain ⟨zeros, within, zeros_, here⟩ := runs
  dsimp only at zeros within zeros_ here
  rw [spanStep]
  dsimp only
  split
  · next zero =>
      rw [zero] at found
      let grown : Span := ⟨if current.len = 0 then done else current.start,
        current.len + 1⟩
      obtain ⟨longer, ends⟩ : AllZeros groups grown ∧
          grown.start + grown.len = done + 1 :=
        allZeros_longer zeros_ here found rfl rfl
      refine ⟨?_, ?_, longer, .inr ends⟩
      · dsimp only
        split
        · exact longer
        · exact zeros
      · dsimp only
        split
        · exact ends.le
        · exact Nat.le_succ_of_le within
  · exact ⟨zeros, Nat.le_succ_of_le within, allZeros_empty groups 0, .inl rfl⟩

theorem runsOf_foldl {rest : List Nat} (runs : RunsOf groups done spans)
    (left : groups.drop done = rest) :
    RunsOf groups (done + rest.length)
      ((rest.zipIdx done).foldl spanStep spans) := by
  induction rest generalizing done spans with
  | nil => exact runs
  | cons group rest ih =>
    have found : groups[done]? = some group := by
      rw [← List.head?_drop, left]
      rfl
    have later : groups.drop (done + 1) = rest := by
      rw [← List.tail_drop, left]
      rfl
    have runs_ := ih (runs.step found) later
    rw [List.zipIdx_cons, List.foldl_cons, List.length_cons]
    rwa [Nat.add_right_comm, Nat.add_assoc] at runs_

theorem longestZeros_spec (groups : List Nat) :
    AllZeros groups (longestZeros groups) ∧
      (longestZeros groups).start + (longestZeros groups).len ≤
        groups.length := by
  have none_ : RunsOf groups 0 (⟨0, 0⟩, ⟨0, 0⟩) :=
    ⟨allZeros_empty groups 0, Nat.le_refl 0, allZeros_empty groups 0, .inl rfl⟩
  have all := runsOf_foldl none_ List.drop_zero
  refine ⟨all.longest, ?_⟩
  have within := all.within
  rwa [Nat.zero_add] at within

/-- Zeros between what is in front of a run and what is behind it give the
groups again. -/
theorem take_zeros_drop {span : Span} (zeros : AllZeros groups span) :
    groups.take span.start ++ List.replicate span.len 0 ++
      groups.drop (span.start + span.len) = groups := by
  have middle : (groups.drop span.start).take span.len =
      List.replicate span.len 0 := by
    refine List.ext_getElem? fun index => ?_
    rw [List.getElem?_take, List.getElem?_replicate]
    split
    · next low =>
        rw [List.getElem?_drop]
        exact zeros _ (Nat.le_add_right _ _) (Nat.add_lt_add_left low _)
    · rfl
  rw [← middle, List.append_assoc, ← List.drop_drop, List.take_append_drop,
    List.take_append_drop]

end Zeros

theorem ofGroups_segments (bits : BitVec 128) :
    ofGroups (segments bits.toNat) = bits := by
  have small := bits.isLt
  refine BitVec.eq_of_toNat_eq ?_
  rw [ofGroups, BitVec.toNat_ofNat, segments]
  simp only [List.range, List.range.loop, List.map_cons, List.map_nil,
    List.foldl_cons, List.foldl_nil]
  generalize bits.toNat = number at *
  norm_num
  omega

section Characters

variable {character : Char}

theorem isAlphanum_printed {base number : Nat} {shown : Nat → UInt8}
    (large : 1 < base)
    (plain : ∀ digit < base,
      (Char.ofNat (shown digit).toNat).isAlphanum = true)
    (member : character ∈ asciiText (if number = 0 then [48]
      else ((Nat.digits base number).map shown).reverse)) :
    character.isAlphanum = true := by
  obtain ⟨byte, printed, rfl⟩ := List.mem_map.mp member
  split at printed
  · rw [List.mem_singleton.mp printed]
    decide
  · obtain ⟨digit, among, rfl⟩ := List.mem_map.mp (List.mem_reverse.mp printed)
    exact plain digit (Nat.digits_lt_base large among)

theorem isAlphanum_decimal {number : Nat}
    (member : character ∈ asciiText (decimal number)) :
    character.isAlphanum = true :=
  isAlphanum_printed (by decide) (by decide) member

theorem isAlphanum_hexadecimal {number : Nat}
    (member : character ∈ asciiText (hexadecimal number)) :
    character.isAlphanum = true :=
  isAlphanum_printed (by decide) (by decide) member

/-- What is printed of an address: letters, digits, colons and dots. -/
def isAddressChar (character : Char) : Bool :=
  character.isAlphanum || character = ':' || character = '.'

theorem mem_v4Text {bits : Nat}
    (member : character ∈ asciiText (v4Text bits)) :
    character.isAlphanum = true ∨ character = '.' := by
  have mark : Char.ofNat (46 : UInt8).toNat = '.' := by decide
  simp only [v4Text, asciiText_append, asciiText_cons, mark, List.mem_append,
    List.mem_cons] at member
  rcases member with octet | dot | octet | dot | octet | dot | octet
  · exact .inl (isAlphanum_decimal octet)
  · exact .inr dot
  · exact .inl (isAlphanum_decimal octet)
  · exact .inr dot
  · exact .inl (isAlphanum_decimal octet)
  · exact .inr dot
  · exact .inl (isAlphanum_decimal octet)

theorem mem_groupsText {groups : List Nat}
    (member : character ∈ asciiText (groupsText groups)) :
    character.isAlphanum = true ∨ character = ':' := by
  have tail : ∀ groups, character ∈ groupsTail groups →
      character.isAlphanum = true ∨ character = ':' := by
    intro groups member
    induction groups with
    | nil => cases member
    | cons group groups ih =>
      rw [groupsTail, List.mem_cons, List.mem_append] at member
      rcases member with colon | here | later
      · exact .inr colon
      · exact .inl (isAlphanum_hexadecimal here)
      · exact ih later
  cases groups with
  | nil => cases member
  | cons group groups =>
    rw [asciiText_groupsText, List.mem_append] at member
    exact member.elim (fun here => .inl (isAlphanum_hexadecimal here))
      (tail groups)

theorem dot_not_mem_groupsText (groups : List Nat) :
    '.' ∉ asciiText (groupsText groups) := by
  intro member
  rcases mem_groupsText member with alphanum | colon
  · cases alphanum
  · cases colon

end Characters

/-- `to_string`. -/
def display (address : IpAddr) : String :=
  String.ofList (asciiText address.text)

/-- The groups of an address that has no IPv4 address in it. -/
theorem v6Text_eq {bits : Nat} (plain : bits / 4294967296 ≠ 65535) :
    asciiText (v6Text bits) =
      let groups := segments bits
      let zeros := longestZeros groups
      if 1 < zeros.len then
        asciiText (groupsText (groups.take zeros.start)) ++ ':' :: ':' ::
          asciiText (groupsText (groups.drop (zeros.start + zeros.len)))
      else asciiText (groupsText groups) := by
  have mark : Char.ofNat (58 : UInt8).toNat = ':' := by decide
  rw [v6Text, if_neg plain]
  dsimp only
  split
  · simp only [asciiText_append, asciiText_cons, mark, List.append_assoc,
      List.cons_append, List.nil_append]
  · rfl

theorem readIpv6_groups {groups : List Nat}
    (small : ∀ group ∈ groups, group < 65536) (eight : groups.length = 8) :
    readIpv6 (asciiText (groupsText groups)) = some (ofGroups groups, []) := by
  have read := readGroups_groupsText small (.inl rfl)
    (by rw [List.append_nil]; exact dot_not_mem_groupsText groups) eight.le
  rw [List.append_nil] at read
  rw [readIpv6, read]
  exact if_pos eight

/-- Groups around two colons are read, with zeros in between. -/
theorem readIpv6_around {head tail : List Nat}
    (head_ : ∀ group ∈ head, group < 65536)
    (tail_ : ∀ group ∈ tail, group < 65536)
    (few : head.length + tail.length ≤ 7) :
    readIpv6 (asciiText (groupsText head) ++ ':' :: ':' ::
        asciiText (groupsText tail)) =
      some (ofGroups (head ++
        List.replicate (8 - head.length - tail.length) 0 ++ tail), []) := by
  have plain := dot_not_mem_groupsText tail
  have front := @readGroups_groupsText 8 head (':' :: ':' ::
    asciiText (groupsText tail)) head_ (.inr ⟨_, rfl⟩) (by
      simp [dot_not_mem_groupsText, plain]) (by omega)
  have back := @readGroups_groupsText (7 - head.length) tail [] tail_ (.inl rfl)
    (by rw [List.append_nil]; exact plain) (by omega)
  rw [List.append_nil] at back
  rw [readIpv6, front]
  dsimp only
  rw [if_neg (by omega), if_neg Bool.false_ne_true]
  simp only [back]

theorem readIpv6_v6Text {bits : BitVec 128}
    (plain : bits.toNat / 4294967296 ≠ 65535) :
    readIpv6 (asciiText (v6Text bits.toNat)) = some (bits, []) ∧
      '.' ∉ asciiText (v6Text bits.toNat) := by
  have small := segments_small bits.toNat
  have eight := length_segments bits.toNat
  obtain ⟨zeros, within⟩ := longestZeros_spec (segments bits.toNat)
  have same := take_zeros_drop zeros
  have address := ofGroups_segments bits
  rw [v6Text_eq plain]
  dsimp only
  generalize segments bits.toNat = groups at *
  generalize longestZeros groups = span at *
  split
  · next long =>
      have read := @readIpv6_around (groups.take span.start)
        (groups.drop (span.start + span.len))
        (fun group member => small group (List.mem_of_mem_take member))
        (fun group member => small group (List.mem_of_mem_drop member))
        (by
          rw [List.length_take, List.length_drop, eight]
          omega)
      have between : 8 - (groups.take span.start).length -
          (groups.drop (span.start + span.len)).length = span.len := by
        rw [List.length_take, List.length_drop, eight]
        omega
      rw [between, same, address] at read
      refine ⟨read, ?_⟩
      simp [dot_not_mem_groupsText]
  · refine ⟨?_, dot_not_mem_groupsText groups⟩
    rw [readIpv6_groups small eight, address]

/-- A printed address that is in its canonical form is read back. -/
theorem parse_display {address : IpAddr}
    (canonical : address.toCanonical = address) :
    parse address.display = some address := by
  rw [parse, display, String.toList_ofList]
  cases address with
  | v4 bits =>
    have read := @readIpv4_v4Text bits.toNat bits.isLt [] (by rintro _ ⟨⟩)
    rw [List.append_nil] at read
    rw [text, read]
    simp
  | v6 bits =>
    have plain : bits.toNat / 4294967296 ≠ 65535 := by
      intro mapped
      rw [toCanonical, if_pos] at canonical
      · cases canonical
      · refine BitVec.eq_of_toNat_eq ?_
        rw [BitVec.toNat_ushiftRight, Nat.shiftRight_eq_div_pow]
        exact mapped
    obtain ⟨read, dots⟩ := readIpv6_v6Text plain
    rw [text, readIpv4_eq_none dots, read]

theorem mem_display {address : IpAddr} {character : Char}
    (member : character ∈ address.display.toList) :
    isAddressChar character = true := by
  have octets {bits : Nat} (member : character ∈ asciiText (v4Text bits)) :
      isAddressChar character = true := by
    rcases mem_v4Text member with alphanum | rfl
    · simp [isAddressChar, alphanum]
    · rfl
  have groups {groups : List Nat}
      (member : character ∈ asciiText (groupsText groups)) :
      isAddressChar character = true := by
    rcases mem_groupsText member with alphanum | rfl
    · simp [isAddressChar, alphanum]
    · rfl
  rw [display, String.toList_ofList] at member
  cases address with
  | v4 bits => exact octets member
  | v6 bits =>
    rw [text] at member
    by_cases mapped : bits.toNat / 4294967296 = 65535
    · rw [v6Text, if_pos mapped, asciiText_append, List.mem_append] at member
      rcases member with front | back
      · have all : (asciiText [58, 58, 102, 102, 102, 102, 58]).all
            isAddressChar = true := by
          decide
        exact List.all_eq_true.mp all character front
      · exact octets back
    · rw [v6Text_eq mapped] at member
      dsimp only at member
      split at member
      · rw [List.mem_append, List.mem_cons, List.mem_cons] at member
        rcases member with front | rfl | rfl | back
        · exact groups front
        · rfl
        · rfl
        · exact groups back
      · exact groups member

/-- Nothing that is printed of an address is whitespace, or a slash. -/
theorem isAddressChar_plain {character : Char}
    (printed : isAddressChar character = true) :
    isWhitespace character = false ∧ character ≠ '/' := by
  rw [isAddressChar, Bool.or_eq_true, Bool.or_eq_true] at printed
  rcases printed with (alphanum | colon) | dot
  · refine ⟨isWhitespace_of_isAlphanum alphanum, ?_⟩
    rintro rfl
    cases alphanum
  · rw [of_decide_eq_true colon]
    decide
  · rw [of_decide_eq_true dot]
    decide

theorem toCanonical_toCanonical (address : IpAddr) :
    address.toCanonical.toCanonical = address.toCanonical := by
  cases address with
  | v4 bits => rfl
  | v6 bits =>
    rw [toCanonical]
    split
    · rfl
    · next plain => rw [toCanonical, if_neg plain]

end IpAddr

end Rust
