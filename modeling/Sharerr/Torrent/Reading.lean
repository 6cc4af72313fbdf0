import Sharerr.Torrent.Decoding

/-!
# What the decoder does with a written value

It reads the value off, wherever it stands, if no part of it lies deeper than
the limit; otherwise it stops at the first part that does.  What the encoder
writes is a written value, so decoding undoes encoding up to that depth.
-/

namespace Sharerr

namespace Bencode

open Rust (u64Bound i64Min i64Max IsLength)

mutual

/-- The levels a written value takes up, its own counted. -/
def Written.levels : Written → Nat
  | .int _ | .bytes _ => 1
  | .list items => levelsItems items + 1
  | .dict entries => levelsEntries entries + 1

def levelsItems : List Written → Nat
  | [] => 0
  | item :: items => max item.levels (levelsItems items)

def levelsEntries : List (WrittenBytes × Written) → Nat
  | [] => 0
  | (_, value) :: entries => max value.levels (levelsEntries entries)

end

/-- No byte string is longer than a `usize` can say. -/
def WrittenBytes.Fits (written : WrittenBytes) : Prop :=
  written.content.length < u64Bound

/-- A written value the decoder can take in: the lengths are right, the
numbers are in range and the byte strings fit. -/
inductive Written.Sound : Written → Prop where
  | int {digits : Bytes} (isInteger : IsInteger digits) : Sound (.int digits)
  | bytes {written : WrittenBytes} (readable : written.Readable)
      (fits : written.Fits) : Sound (.bytes written)
  | list {items : List Written} (all : ∀ item ∈ items, Sound item) :
      Sound (.list items)
  | dict {entries : List (WrittenBytes × Written)}
      (keys : ∀ entry ∈ entries, entry.1.Readable)
      (fits : ∀ entry ∈ entries, entry.1.Fits)
      (all : ∀ entry ∈ entries, Sound entry.2) : Sound (.dict entries)

theorem Written.Sound.readable {written : Written} (sound : written.Sound) :
    written.Readable := by
  induction sound with
  | int isInteger => exact .int isInteger
  | bytes readable _ => exact .bytes readable
  | list _ ih => exact .list ih
  | dict keys _ _ ih => exact .dict keys ih

section Read

variable {pos : Nat} {rest : Bytes}

variable {digits : Bytes} {items : List Written}
  {entries : List (WrittenBytes × Written)}

theorem upTo_append {stop : UInt8} (clean : stop ∉ digits) :
    Parser.upTo stop (digits ++ stop :: rest) = some digits := by
  have all : ∀ byte ∈ digits, decide (byte ≠ stop) = true := by
    intro byte among
    simpa using fun same : byte = stop => clean (same ▸ among)
  rw [Parser.upTo, if_pos (List.mem_append_right _ List.mem_cons_self),
    List.takeWhile_append_of_pos all, List.takeWhile_cons_of_neg (by simp),
    List.append_nil]

theorem integer_complete (isInteger : IsInteger digits) :
    Parser.integer ⟨pos, 105 :: digits ++ 101 :: rest⟩ =
      .ok ((Written.int digits).value,
        ⟨pos + (digits.length + 2), rest⟩) := by
  have clean := end_notMem isInteger
  obtain ⟨number, read, printed⟩ := isInteger
  have kept : (Rust.parseI64 digits).filter
      (Rust.signedDecimal · = digits) = some number := by
    rw [read, Option.filter_some, if_pos (by simpa using printed)]
  have value : (Written.int digits).value = .int number := by
    rw [Written.value, read, Option.getD_some]
  rw [Parser.integer, value]
  simp only [Parser.advance, List.cons_append, List.drop_one, List.tail_cons,
    upTo_append clean, kept, drop_upTo]
  rw [show pos + 1 + (digits.length + 1) = pos + (digits.length + 2) by omega]

theorem bytes_complete {written : WrittenBytes} (readable : written.Readable)
    (fits : written.Fits) :
    Parser.bytes ⟨pos, written.text ++ rest⟩ =
      .ok (written.content, ⟨pos + written.text.length, rest⟩) := by
  have clean := colon_notMem readable
  have parsed := Rust.parseUsize_of_isLength readable fits
  obtain ⟨digits, content⟩ := written
  have enough : ¬ (content ++ rest).length < content.length := by simp
  simp only [WrittenBytes.text, List.append_assoc, List.cons_append,
    Parser.bytes, upTo_append clean, parsed, Parser.advance, drop_upTo,
    if_neg enough, List.take_left', List.drop_left']
  simp only [List.length_append, List.length_cons, Except.ok.injEq,
    Prod.mk.injEq, Parser.mk.injEq, and_true, true_and]
  omega

/-- What the decoder makes of a written value with `levels` levels left. -/
def within {α : Type} (deep levels : Nat) (read : α × Parser) :
    Except BencodeError (α × Parser) :=
  if deep ≤ levels then .ok read else .error (.tooDeep maxDepth)

/-- What an item of a list or of a dictionary is read as, in full. -/
def ReadsText (item : Parser → Except BencodeError (Value × Parser))
    (levels : Nat) (written : Written) : Prop :=
  ∀ pos rest, item ⟨pos, written.text ++ rest⟩ =
    within written.levels levels
      (written.value, ⟨pos + written.text.length, rest⟩)

variable {item : Parser → Except BencodeError (Value × Parser)} {levels : Nat}

theorem items_complete (readable : ∀ one ∈ items, one.Readable)
    (reads : ∀ one ∈ items, ReadsText item levels one) {budget : Nat}
    (enough : items.length < budget) (done : List Value) :
    Parser.items item budget done ⟨pos, textItems items ++ 101 :: rest⟩ =
      within (levelsItems items) levels (done ++ valueItems items,
        ⟨pos + ((textItems items).length + 1), rest⟩) := by
  induction items generalizing budget done pos with
  | nil =>
    obtain ⟨budget, rfl⟩ := Nat.exists_eq_succ_of_ne_zero
      (Nat.ne_of_gt enough)
    simp [Parser.items, Parser.peek, textItems, levelsItems, valueItems,
      within, Parser.advance, bind, Except.bind, pure, Except.pure]
  | cons one items ih =>
    obtain ⟨budget, rfl⟩ := Nat.exists_eq_succ_of_ne_zero
      (Nat.ne_zero_of_lt enough)
    obtain ⟨first, tail, starts, goesOn⟩ :=
      Written.first (readable one List.mem_cons_self)
    have peeked : Parser.peek ⟨pos, textItems (one :: items) ++ 101 :: rest⟩ =
        .ok first := by
      rw [textItems, starts]
      rfl
    have read := reads one List.mem_cons_self pos
      (textItems items ++ 101 :: rest)
    rw [← List.append_assoc, ← textItems] at read
    rw [Parser.items, peeked]
    simp only [bind, Except.bind, goesOn, if_false, read]
    by_cases shallow : one.levels ≤ levels
    · rw [within, if_pos shallow]
      simp only
      rw [ih (fun other member => readable other (.tail _ member))
        (fun other member => reads other (.tail _ member))
        (Nat.lt_of_succ_lt_succ enough)]
      have deep : max one.levels (levelsItems items) ≤ levels ↔
          levelsItems items ≤ levels := by omega
      simp only [within, levelsItems, deep, valueItems, textItems,
        List.length_append, List.append_assoc, List.singleton_append,
        Nat.add_assoc]
    · have deep : ¬ levelsItems (one :: items) ≤ levels := by
        rw [levelsItems]
        omega
      rw [within, if_neg shallow, within, if_neg deep]

theorem entries_complete (keys : ∀ entry ∈ entries, entry.1.Readable)
    (fits : ∀ entry ∈ entries, entry.1.Fits)
    (reads : ∀ entry ∈ entries, ReadsText item levels entry.2) {budget : Nat}
    (enough : entries.length < budget) (done : List (Bytes × Value)) :
    Parser.entries item budget done ⟨pos, textEntries entries ++ 101 :: rest⟩ =
      within (levelsEntries entries) levels
        ((valueEntries entries).foldl
          (fun map entry => Rust.BTreeMap.insert entry.1 entry.2 map) done,
        ⟨pos + ((textEntries entries).length + 1), rest⟩) := by
  induction entries generalizing budget done pos with
  | nil =>
    obtain ⟨budget, rfl⟩ := Nat.exists_eq_succ_of_ne_zero
      (Nat.ne_of_gt enough)
    simp [Parser.entries, Parser.peek, textEntries, levelsEntries,
      valueEntries, within, Parser.advance, bind, Except.bind, pure,
      Except.pure]
  | cons entry entries ih =>
    obtain ⟨key, one⟩ := entry
    obtain ⟨budget, rfl⟩ := Nat.exists_eq_succ_of_ne_zero
      (Nat.ne_zero_of_lt enough)
    have readable := keys (key, one) List.mem_cons_self
    obtain ⟨first, tail, starts, digit⟩ := WrittenBytes.first readable
    have goesOn : first ≠ 101 := by
      intro ends
      rw [ends] at digit
      cases digit
    have whole : textEntries ((key, one) :: entries) ++ 101 :: rest =
        key.text ++ (one.text ++ (textEntries entries ++ 101 :: rest)) := by
      simp only [textEntries, List.append_assoc]
    have peeked : Parser.peek ⟨pos, key.text ++
        (one.text ++ (textEntries entries ++ 101 :: rest))⟩ = .ok first := by
      rw [starts]
      rfl
    have read := reads (key, one) List.mem_cons_self (pos + key.text.length)
      (textEntries entries ++ 101 :: rest)
    rw [whole, Parser.entries, peeked]
    simp only [bind, Except.bind, goesOn, if_false, digit, Bool.not_true,
      Bool.false_eq_true,
      bytes_complete readable (fits (key, one) List.mem_cons_self), read]
    by_cases shallow : one.levels ≤ levels
    · rw [within, if_pos shallow]
      simp only
      rw [ih (fun other member => keys other (.tail _ member))
        (fun other member => fits other (.tail _ member))
        (fun other member => reads other (.tail _ member))
        (Nat.lt_of_succ_lt_succ enough)]
      have deep : max one.levels (levelsEntries entries) ≤ levels ↔
          levelsEntries entries ≤ levels := by omega
      simp only [within, levelsEntries, deep, valueEntries, textEntries,
        List.length_append, List.foldl_cons, Nat.add_assoc]
    · have deep : ¬ levelsEntries ((key, one) :: entries) ≤ levels := by
        rw [levelsEntries]
        omega
      rw [within, if_neg shallow, within, if_neg deep]

theorem length_le_textItems (readable : ∀ one ∈ items, one.Readable) :
    items.length ≤ (textItems items).length := by
  induction items with
  | nil => exact Nat.zero_le _
  | cons one items ih =>
    obtain ⟨first, tail, starts, -⟩ :=
      Written.first (readable one List.mem_cons_self)
    have rest := ih fun other member => readable other (.tail _ member)
    rw [textItems, starts]
    simp only [List.length_append, List.length_cons]
    omega

theorem length_le_textEntries (readable : ∀ entry ∈ entries, entry.1.Readable) :
    entries.length ≤ (textEntries entries).length := by
  induction entries with
  | nil => exact Nat.zero_le _
  | cons entry entries ih =>
    obtain ⟨key, one⟩ := entry
    obtain ⟨first, tail, starts, -⟩ :=
      WrittenBytes.first (readable (key, one) List.mem_cons_self)
    have rest := ih fun other member => readable other (.tail _ member)
    rw [textEntries, starts]
    simp only [List.length_append, List.length_cons]
    omega

theorem value_of_bytes {written : WrittenBytes} (readable : written.Readable)
    (fits : written.Fits) (levels : Nat) :
    Parser.value (levels + 1) ⟨pos, written.text ++ rest⟩ =
      .ok (.bytes written.content, ⟨pos + written.text.length, rest⟩) := by
  obtain ⟨first, tail, starts, digit⟩ := WrittenBytes.first readable
  have noInt : first ≠ 105 := by
    intro letter
    rw [letter] at digit
    cases digit
  have peeked : Parser.peek ⟨pos, written.text ++ rest⟩ = .ok first := by
    rw [starts]
    rfl
  rw [Parser.value, peeked]
  simp only [bind, Except.bind, noInt, if_false, digit, if_true,
    bytes_complete readable fits, pure, Except.pure]

theorem value_of_int (isInteger : IsInteger digits) (levels : Nat) :
    Parser.value (levels + 1) ⟨pos, (Written.int digits).text ++ rest⟩ =
      .ok ((Written.int digits).value,
        ⟨pos + (Written.int digits).text.length, rest⟩) := by
  have text : (Written.int digits).text ++ rest =
      105 :: digits ++ 101 :: rest := by
    simp [Written.text]
  have peeked : Parser.peek ⟨pos, 105 :: digits ++ 101 :: rest⟩ = .ok 105 :=
    rfl
  rw [text, Parser.value, peeked]
  simp only [bind, Except.bind, if_true, integer_complete isInteger]
  simp [Written.text]

theorem value_of_list (readable : ∀ one ∈ items, one.Readable)
    (reads : ∀ one ∈ items, ReadsText (Parser.value levels) levels one) :
    Parser.value (levels + 1) ⟨pos, (Written.list items).text ++ rest⟩ =
      within (Written.list items).levels (levels + 1)
        ((Written.list items).value,
          ⟨pos + (Written.list items).text.length, rest⟩) := by
  have text : (Written.list items).text ++ rest =
      108 :: (textItems items ++ 101 :: rest) := by
    simp [Written.text]
  have peeked : Parser.peek ⟨pos, 108 :: (textItems items ++ 101 :: rest)⟩ =
      .ok 108 := rfl
  have noInt : (108 : UInt8) ≠ 105 := by decide
  have noDigit : Rust.isAsciiDigit 108 = false := by decide
  have enough : items.length < (textItems items ++ 101 :: rest).length := by
    have short := length_le_textItems readable
    simp only [List.length_append, List.length_cons]
    omega
  rw [text, Parser.value, peeked]
  simp only [bind, Except.bind, noInt, if_false, noDigit, Bool.false_eq_true,
    if_true, Parser.advance, List.drop_one, List.tail_cons, List.length_cons,
    Nat.add_sub_cancel, items_complete readable reads enough]
  by_cases shallow : levelsItems items ≤ levels
  · have deep : (Written.list items).levels ≤ levels + 1 := by
      rw [Written.levels]
      omega
    rw [within, if_pos shallow, within, if_pos deep]
    simp only [List.nil_append, pure, Except.pure, Written.value, Written.text,
      List.cons_append, List.length_cons, List.length_append,
      List.length_nil, Except.ok.injEq, Prod.mk.injEq, Parser.mk.injEq,
      and_true, true_and]
    omega
  · have deep : ¬ (Written.list items).levels ≤ levels + 1 := by
      rw [Written.levels]
      omega
    rw [within, if_neg shallow, within, if_neg deep]

theorem value_of_dict {entries : List (WrittenBytes × Written)}
    (keys : ∀ entry ∈ entries, entry.1.Readable)
    (fits : ∀ entry ∈ entries, entry.1.Fits)
    (reads : ∀ entry ∈ entries,
      ReadsText (Parser.value levels) levels entry.2) :
    Parser.value (levels + 1) ⟨pos, (Written.dict entries).text ++ rest⟩ =
      within (Written.dict entries).levels (levels + 1)
        ((Written.dict entries).value,
          ⟨pos + (Written.dict entries).text.length, rest⟩) := by
  have text : (Written.dict entries).text ++ rest =
      100 :: (textEntries entries ++ 101 :: rest) := by
    simp [Written.text]
  have peeked : Parser.peek
      ⟨pos, 100 :: (textEntries entries ++ 101 :: rest)⟩ = .ok 100 := rfl
  have noInt : (100 : UInt8) ≠ 105 := by decide
  have noDigit : Rust.isAsciiDigit 100 = false := by decide
  have noList : (100 : UInt8) ≠ 108 := by decide
  have enough :
      entries.length < (textEntries entries ++ 101 :: rest).length := by
    have short := length_le_textEntries keys
    simp only [List.length_append, List.length_cons]
    omega
  rw [text, Parser.value, peeked]
  simp only [bind, Except.bind, noInt, noList, if_false, noDigit,
    Bool.false_eq_true, if_true, Parser.advance, List.drop_one,
    List.tail_cons, List.length_cons, Nat.add_sub_cancel,
    entries_complete keys fits reads enough]
  by_cases shallow : levelsEntries entries ≤ levels
  · have deep : (Written.dict entries).levels ≤ levels + 1 := by
      rw [Written.levels]
      omega
    rw [within, if_pos shallow, within, if_pos deep]
    simp only [Written.value, pure, Except.pure, Rust.BTreeMap.collect,
      Written.text, List.cons_append, List.length_cons, List.length_append,
      List.length_nil, Except.ok.injEq, Prod.mk.injEq, Parser.mk.injEq,
      and_true, true_and]
    omega
  · have deep : ¬ (Written.dict entries).levels ≤ levels + 1 := by
      rw [Written.levels]
      omega
    rw [within, if_neg shallow, within, if_neg deep]

/-- A written value is read off as far as the levels reach. -/
theorem value_complete {written : Written} (sound : written.Sound)
    (levels : Nat) : ReadsText (Parser.value levels) levels written := by
  induction sound generalizing levels with
  | @int digits isInteger =>
    intro pos rest
    cases levels with
    | zero => rfl
    | succ levels =>
      have shallow : (Written.int digits).levels ≤ levels + 1 :=
        Nat.succ_le_succ (Nat.zero_le _)
      rw [within, if_pos shallow, value_of_int isInteger]
  | @bytes written readable fits =>
    intro pos rest
    cases levels with
    | zero => rfl
    | succ levels =>
      have shallow : (Written.bytes written).levels ≤ levels + 1 :=
        Nat.succ_le_succ (Nat.zero_le _)
      rw [within, if_pos shallow, Written.text,
        value_of_bytes readable fits, Written.value]
  | list all ih =>
    intro pos rest
    cases levels with
    | zero => rfl
    | succ levels =>
      exact value_of_list (fun one member => (all one member).readable)
        fun one member => ih one member levels
  | dict keys fits all ih =>
    intro pos rest
    cases levels with
    | zero => rfl
    | succ levels =>
      exact value_of_dict keys fits fun entry member =>
        ih entry member levels

/-- Text is decoded to its value, if that goes no deeper than the limit. -/
theorem decode_text {written : Written} (sound : written.Sound) :
    Value.decode written.text =
      if written.levels ≤ maxDepth + 1 then .ok written.value
      else .error (.tooDeep maxDepth) := by
  have read := value_complete sound (maxDepth + 1) 0 []
  rw [List.append_nil] at read
  rw [Value.decode, read]
  by_cases shallow : written.levels ≤ maxDepth + 1
  · rw [within, if_pos shallow, if_pos shallow]
    rfl
  · rw [within, if_neg shallow, if_neg shallow]
    rfl

end Read

/-- A value of the source: its integers are `i64`s, its byte strings no longer
than a `usize` can say, its dictionaries in order. -/
inductive Value.WellFormed : Value → Prop where
  | int {number : Int} (low : i64Min ≤ number) (high : number ≤ i64Max) :
      WellFormed (.int number)
  | bytes {content : Bytes} (fits : content.length < u64Bound) :
      WellFormed (.bytes content)
  | list {items : List Value} (all : ∀ item ∈ items, WellFormed item) :
      WellFormed (.list items)
  | dict {entries : List (Bytes × Value)}
      (sorted : Rust.BTreeMap.Sorted entries)
      (fits : ∀ entry ∈ entries, entry.1.length < u64Bound)
      (all : ∀ entry ∈ entries, WellFormed entry.2) :
      WellFormed (.dict entries)

def Value.encode (value : Value) : Bytes := value.write

mutual

/-- How deep a value goes, its own level counted. -/
def Value.levels : Value → Nat
  | .int _ | .bytes _ => 1
  | .list items => valueLevels items + 1
  | .dict entries => entryLevels entries + 1

def valueLevels : List Value → Nat
  | [] => 0
  | item :: items => max item.levels (valueLevels items)

def entryLevels : List (Bytes × Value) → Nat
  | [] => 0
  | (_, value) :: entries => max value.levels (entryLevels entries)

end

def WrittenBytes.ofBytes (content : Bytes) : WrittenBytes :=
  ⟨Rust.decimal content.length, content⟩

mutual

/-- The way a value is written. -/
def Value.written : Value → Written
  | .int number => .int (Rust.signedDecimal number)
  | .bytes content => .bytes (.ofBytes content)
  | .list items => .list (writtenItems items)
  | .dict entries => .dict (writtenEntries entries)

def writtenItems : List Value → List Written
  | [] => []
  | item :: items => item.written :: writtenItems items

def writtenEntries : List (Bytes × Value) → List (WrittenBytes × Written)
  | [] => []
  | (key, value) :: entries =>
    (.ofBytes key, value.written) :: writtenEntries entries

end

theorem writtenItems_eq (items : List Value) :
    writtenItems items = items.map (·.written) := by
  induction items with
  | nil => rfl
  | cons item items ih => rw [writtenItems, List.map_cons, ih]

theorem writtenEntries_eq (entries : List (Bytes × Value)) :
    writtenEntries entries =
      entries.map fun entry => (.ofBytes entry.1, entry.2.written) := by
  induction entries with
  | nil => rfl
  | cons entry entries ih => rw [writtenEntries, List.map_cons, ih]

section Canonical

variable {value : Value} {items : List Value} {entries : List (Bytes × Value)}

theorem WrittenBytes.canonical_ofBytes (content : Bytes) :
    (WrittenBytes.ofBytes content).Canonical :=
  rfl

theorem WrittenBytes.readable_ofBytes (content : Bytes) :
    (WrittenBytes.ofBytes content).Readable :=
  Rust.isLength_decimal _

theorem sound_written (wellFormed : value.WellFormed) :
    value.written.Sound := by
  induction wellFormed with
  | @int number low high =>
    exact .int ⟨number, Rust.parseI64_signedDecimal low high, rfl⟩
  | bytes fits => exact .bytes (WrittenBytes.readable_ofBytes _) fits
  | @list items all ih =>
    rw [Value.written, writtenItems_eq]
    refine .list fun written member => ?_
    obtain ⟨item, among, rfl⟩ := List.mem_map.mp member
    exact ih item among
  | @dict entries sorted fits all ih =>
    rw [Value.written, writtenEntries_eq]
    refine .dict (fun written member => ?_) (fun written member => ?_)
      fun written member => ?_
    · obtain ⟨entry, -, rfl⟩ := List.mem_map.mp member
      exact WrittenBytes.readable_ofBytes entry.1
    · obtain ⟨entry, among, rfl⟩ := List.mem_map.mp member
      exact fits entry among
    · obtain ⟨entry, among, rfl⟩ := List.mem_map.mp member
      exact ih entry among

theorem value_written (wellFormed : value.WellFormed) :
    value.written.value = value := by
  induction wellFormed with
  | @int number low high =>
    rw [Value.written, Written.value, Rust.parseI64_signedDecimal low high,
      Option.getD_some]
  | bytes _ => rfl
  | @list items all ih =>
    have same : items.map (fun item => item.written.value) = items :=
      (List.map_congr_left ih).trans (List.map_id _)
    rw [Value.written, Written.value, valueItems_eq, writtenItems_eq,
      List.map_map]
    exact congrArg Value.list same
  | @dict entries sorted fits all ih =>
    have same : entries.map (fun entry =>
        (entry.1, entry.2.written.value)) = entries := by
      refine (List.map_congr_left fun entry member => ?_).trans
        (List.map_id _)
      rw [ih entry member]
      rfl
    rw [Value.written, Written.value, valueEntries_eq, writtenEntries_eq,
      List.map_map]
    simp only [Function.comp_def, WrittenBytes.ofBytes, same,
      Rust.BTreeMap.collect_of_sorted sorted]

theorem canonical_written (wellFormed : value.WellFormed) :
    value.written.Canonical := by
  induction wellFormed with
  | int _ _ => exact .int _
  | bytes _ => exact .bytes (WrittenBytes.canonical_ofBytes _)
  | @list items all ih =>
    rw [Value.written, writtenItems_eq]
    exact .list (List.forall_mem_map.mpr ih)
  | @dict entries sorted fits all ih =>
    rw [Value.written, writtenEntries_eq]
    refine .dict ?_ (List.forall_mem_map.mpr fun entry _ =>
      WrittenBytes.canonical_ofBytes entry.1) (List.forall_mem_map.mpr ih)
    rw [List.map_map]
    exact sorted

/-- The encoder's text is that of the written value. -/
theorem text_written (wellFormed : value.WellFormed) :
    value.written.text = value.encode := by
  have again := write_value (canonical_written wellFormed)
    (sound_written wellFormed).readable
  rw [value_written wellFormed] at again
  exact again.symm

theorem levels_written (wellFormed : value.WellFormed) :
    value.written.levels = value.levels := by
  induction wellFormed with
  | int _ _ => rfl
  | bytes _ => rfl
  | @list items all ih =>
    have same : levelsItems (writtenItems items) = valueLevels items := by
      clear all
      induction items with
      | nil => rfl
      | cons item items ihItems =>
        rw [writtenItems, levelsItems, valueLevels,
          ih item List.mem_cons_self,
          ihItems fun other member => ih other (.tail _ member)]
    rw [Value.written, Written.levels, Value.levels, same]
  | @dict entries sorted fits all ih =>
    have same : levelsEntries (writtenEntries entries) =
        entryLevels entries := by
      clear all fits sorted
      induction entries with
      | nil => rfl
      | cons entry entries ihEntries =>
        rw [writtenEntries, levelsEntries, entryLevels,
          ih entry List.mem_cons_self,
          ihEntries fun other member => ih other (.tail _ member)]
    rw [Value.written, Written.levels, Value.levels, same]

/-- What was encoded is decoded to the value it was, as long as no part of it
lies deeper than the limit. -/
theorem decode_encode (wellFormed : value.WellFormed) :
    Value.decode value.encode =
      if value.levels ≤ maxDepth + 1 then .ok value
      else .error (.tooDeep maxDepth) := by
  rw [← text_written wellFormed, decode_text (sound_written wellFormed),
    value_written wellFormed, levels_written wellFormed]

theorem encode_injective {other : Value} (wellFormed : value.WellFormed)
    (wellFormed_ : other.WellFormed) (same : value.encode = other.encode) :
    value = other := by
  have texts : value.written.text ++ [] = other.written.text ++ [] := by
    rw [text_written wellFormed, text_written wellFormed_, same]
  have written := (Written.unique (sound_written wellFormed).readable
    (sound_written wellFormed_).readable texts).1
  rw [← value_written wellFormed, ← value_written wellFormed_, written]

/-- Decoding undoes encoding where nothing lies more than `MAX_DEPTH` levels
below the value itself, and stops at that depth everywhere else; no two values
are encoded alike. -/
theorem decode_undoes_encode (value : Value) (wellFormed : value.WellFormed) :
    (value.levels - 1 ≤ maxDepth → Value.decode value.encode = .ok value) ∧
      (maxDepth < value.levels - 1 →
        Value.decode value.encode = .error (.tooDeep maxDepth)) ∧
      ∀ other : Value, other.WellFormed → value.encode = other.encode →
        value = other := by
  have decoded := decode_encode wellFormed
  refine ⟨fun shallow => ?_, fun deep => ?_, fun other wellFormed_ =>
    encode_injective wellFormed wellFormed_⟩
  · rw [decoded, if_pos (by omega)]
  · rw [decoded, if_neg (by omega)]

end Canonical

mutual

/-- How many containers stand in one another. -/
def Value.containers : Value → Nat
  | .int _ | .bytes _ => 0
  | .list items => itemContainers items + 1
  | .dict entries => entryContainers entries + 1

def itemContainers : List Value → Nat
  | [] => 0
  | item :: items => max item.containers (itemContainers items)

def entryContainers : List (Bytes × Value) → Nat
  | [] => 0
  | (_, value) :: entries => max value.containers (entryContainers entries)

end

/-- A number in so many lists. -/
def numberIn : Nat → Value
  | 0 => .int 0
  | lists + 1 => .list [numberIn lists]

theorem wellFormed_numberIn (lists : Nat) : (numberIn lists).WellFormed := by
  induction lists with
  | zero => exact .int (by decide) (by decide)
  | succ lists ih => exact .list (List.forall_mem_singleton.mpr ih)

theorem levels_numberIn (lists : Nat) :
    (numberIn lists).levels = lists + 1 := by
  induction lists with
  | zero => rfl
  | succ lists ih =>
    rw [numberIn, Value.levels, valueLevels, valueLevels, ih, Nat.max_zero]

theorem containers_numberIn (lists : Nat) :
    (numberIn lists).containers = lists := by
  induction lists with
  | zero => rfl
  | succ lists ih =>
    rw [numberIn, Value.containers, itemContainers, itemContainers, ih,
      Nat.max_zero]

/-- As many lists below the topmost as may stand there, and a number in the
last of them, which is one level too deep. -/
theorem number_in_last_list :
    ∃ value : Value, value.WellFormed ∧ value.containers - 1 ≤ maxDepth ∧
      Value.decode value.encode = .error (.tooDeep maxDepth) := by
  refine ⟨numberIn 33, wellFormed_numberIn 33, ?_, ?_⟩
  · rw [containers_numberIn]
    exact Nat.le_refl 32
  · rw [decode_encode (wellFormed_numberIn 33), levels_numberIn,
      if_neg (by decide)]

/-- The dictionary `{"a": [-3, "x"]}`. -/
def smallDict : Value := .dict [([97], .list [.int (-3), .bytes [120]])]

theorem wellFormed_smallDict : smallDict.WellFormed := by
  refine .dict (List.pairwise_singleton _ _)
    (List.forall_mem_singleton.mpr (by decide))
    (List.forall_mem_singleton.mpr (.list (List.forall_mem_cons.mpr ⟨?_, ?_⟩)))
  · exact .int (by decide) (by decide)
  · exact List.forall_mem_singleton.mpr (.bytes (by decide))

theorem small_dict_read_again :
    smallDict.encode = Vault.toUtf8 "d1:ali-3e1:xee" ∧
      Value.decode smallDict.encode = .ok smallDict :=
  ⟨by decide +kernel, (decode_undoes_encode smallDict wellFormed_smallDict).1
    (by decide)⟩

/-- What is read is a value of the source and no deeper than was allowed. -/
def ReadsWellFormed (item : Parser → Except BencodeError (Value × Parser))
    (levels : Nat) : Prop :=
  ∀ parser value next, item parser = .ok (value, next) →
    value.WellFormed ∧ value.levels ≤ levels

section Decoded

variable {parser next : Parser} {value : Value} {levels : Nat}
variable {item : Parser → Except BencodeError (Value × Parser)}

theorem integer_wellFormed (parsed : parser.integer = .ok (value, next)) :
    value.WellFormed ∧ value.levels = 1 := by
  simp only [Parser.integer] at parsed
  split at parsed
  · cases parsed
  · split at parsed
    · cases parsed
    · rename_i number kept
      cases parsed
      obtain ⟨read, -⟩ := Option.filter_eq_some_iff.mp kept
      obtain ⟨low, high⟩ := Rust.range_of_parseI64 read
      exact ⟨.int low high, rfl⟩

theorem bytes_length {content : Bytes}
    (parsed : parser.bytes = .ok (content, next)) :
    content.length < u64Bound := by
  simp only [Parser.bytes] at parsed
  split at parsed
  · cases parsed
  · split at parsed
    · cases parsed
    · rename_i len read
      split at parsed
      · cases parsed
      · cases parsed
        exact Nat.lt_of_le_of_lt (List.length_take_le _ _)
          (Rust.lt_of_parseUsize read)

theorem items_wellFormed (reads : ReadsWellFormed item levels) {budget : Nat}
    {done values : List Value}
    (before : ∀ one ∈ done, one.WellFormed ∧ one.levels ≤ levels)
    (parsed : Parser.items item budget done parser = .ok (values, next)) :
    ∀ one ∈ values, one.WellFormed ∧ one.levels ≤ levels := by
  induction budget generalizing done parser with
  | zero => cases parsed
  | succ budget ih =>
    obtain ⟨byte, -, parsed⟩ := Rust.bind_eq_ok parsed
    split at parsed
    · cases parsed
      exact before
    · obtain ⟨⟨one, middle⟩, first, parsed⟩ := Rust.bind_eq_ok parsed
      refine ih (fun other member => ?_) parsed
      rcases List.mem_append.mp member with old | new
      · exact before other old
      · rw [List.mem_singleton.mp new]
        exact reads _ _ _ first

theorem entries_wellFormed (reads : ReadsWellFormed item levels)
    {budget : Nat} {done values : List (Bytes × Value)}
    (sorted : Rust.BTreeMap.Sorted done)
    (before : ∀ entry ∈ done, entry.1.length < u64Bound ∧
      entry.2.WellFormed ∧ entry.2.levels ≤ levels)
    (parsed : Parser.entries item budget done parser = .ok (values, next)) :
    Rust.BTreeMap.Sorted values ∧
      ∀ entry ∈ values, entry.1.length < u64Bound ∧
        entry.2.WellFormed ∧ entry.2.levels ≤ levels := by
  induction budget generalizing done parser with
  | zero => cases parsed
  | succ budget ih =>
    obtain ⟨byte, -, parsed⟩ := Rust.bind_eq_ok parsed
    split at parsed
    · cases parsed
      exact ⟨sorted, before⟩
    · split at parsed
      · cases parsed
      · obtain ⟨⟨key, between⟩, first, parsed⟩ := Rust.bind_eq_ok parsed
        obtain ⟨⟨one, middle⟩, second, parsed⟩ := Rust.bind_eq_ok parsed
        refine ih (Rust.BTreeMap.sorted_insert sorted)
          (fun entry member => ?_) parsed
        rcases Rust.BTreeMap.mem_insert member with rfl | old
        · exact ⟨bytes_length first, reads _ _ _ second⟩
        · exact before entry old

theorem valueLevels_le {items : List Value}
    (each : ∀ item ∈ items, item.levels ≤ levels) :
    valueLevels items ≤ levels := by
  induction items with
  | nil => exact Nat.zero_le _
  | cons item items ih =>
    have first := each item List.mem_cons_self
    have rest := ih fun other member => each other (.tail _ member)
    rw [valueLevels]
    omega

theorem entryLevels_le {entries : List (Bytes × Value)}
    (each : ∀ entry ∈ entries, entry.2.levels ≤ levels) :
    entryLevels entries ≤ levels := by
  induction entries with
  | nil => exact Nat.zero_le _
  | cons entry entries ih =>
    have first := each entry List.mem_cons_self
    have rest := ih fun other member => each other (.tail _ member)
    rw [entryLevels]
    omega

theorem value_wellFormed (levels : Nat) :
    ReadsWellFormed (Parser.value levels) levels := by
  induction levels with
  | zero => exact fun _ _ _ parsed => by cases parsed
  | succ levels ih =>
    intro parser value next parsed
    obtain ⟨byte, -, parsed⟩ := Rust.bind_eq_ok parsed
    split at parsed
    · obtain ⟨wellFormed, one⟩ := integer_wellFormed parsed
      exact ⟨wellFormed, by omega⟩
    split at parsed
    · obtain ⟨⟨content, middle⟩, read, parsed⟩ := Rust.bind_eq_ok parsed
      cases parsed
      exact ⟨.bytes (bytes_length read), Nat.succ_le_succ (Nat.zero_le _)⟩
    split at parsed
    · obtain ⟨⟨items, middle⟩, read, parsed⟩ := Rust.bind_eq_ok parsed
      cases parsed
      have each := items_wellFormed ih
        (fun one member => absurd member List.not_mem_nil) read
      exact ⟨.list fun item member => (each item member).1,
        Nat.succ_le_succ (valueLevels_le fun item member =>
          (each item member).2)⟩
    split at parsed
    · obtain ⟨⟨entries, middle⟩, read, parsed⟩ := Rust.bind_eq_ok parsed
      cases parsed
      have empty : Rust.BTreeMap.Sorted ([] : List (Bytes × Value)) :=
        List.Pairwise.nil
      obtain ⟨sorted, each⟩ := entries_wellFormed ih empty
        (fun entry member => absurd member List.not_mem_nil) read
      exact ⟨.dict sorted (fun entry member => (each entry member).1)
          fun entry member => (each entry member).2.1,
        Nat.succ_le_succ (entryLevels_le fun entry member =>
          (each entry member).2.2)⟩
    · cases parsed

/-- What is decoded is a value of the source, within the limit. -/
theorem wellFormed_of_decode {input : Bytes}
    (decoded : Value.decode input = .ok value) :
    value.WellFormed ∧ value.levels ≤ maxDepth + 1 := by
  obtain ⟨⟨read, next⟩, parsed, decoded⟩ := Rust.bind_eq_ok decoded
  by_cases ended : next.rest = []
  · simp only [ended, ne_eq, not_true_eq_false, if_false] at decoded
    cases decoded
    exact value_wellFormed _ _ _ _ parsed
  · simp only [ne_eq, ended, not_false_eq_true, if_true] at decoded
    cases decoded

end Decoded

end Bencode

end Sharerr
