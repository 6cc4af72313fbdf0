import Sharerr.Torrent.Written

/-!
# What the decoder accepts

Whatever the decoder accepts is the text of a written value, and what it
returns is the value of that.  The encoder writes the same bytes again exactly
where the text was canonical.
-/

namespace Sharerr

namespace Bencode

open Rust (BTreeMap.insert BTreeMap.collect)

section Sound

variable {parser next : Parser} {value : Value}
variable {stop : UInt8} {rest digits : Bytes}

theorem eq_of_upTo (found : Parser.upTo stop rest = some digits) :
    ∃ tail, rest = digits ++ stop :: tail := by
  rw [Parser.upTo] at found
  split at found
  · rename_i member
    cases found
    obtain ⟨front, tail, rfl, clean⟩ := List.eq_append_cons_of_mem member
    have all : ∀ byte ∈ front, decide (byte ≠ stop) = true := by
      intro byte among
      simpa using fun same : byte = stop => clean (same ▸ among)
    rw [List.takeWhile_append_of_pos all,
      List.takeWhile_cons_of_neg (by simp), List.append_nil]
    exact ⟨tail, rfl⟩
  · cases found

theorem drop_upTo {tail : Bytes} :
    (digits ++ stop :: tail).drop (digits.length + 1) = tail := by
  rw [← List.drop_drop, List.drop_left]
  rfl

theorem integer_sound (starts : parser.rest.head? = some 105)
    (parsed : parser.integer = .ok (value, next)) :
    ∃ written : Written, written.Readable ∧ written.value = value ∧
      parser.rest = written.text ++ next.rest := by
  obtain ⟨tail, begins⟩ := List.head?_eq_some_iff.mp starts
  rw [Parser.integer] at parsed
  simp only [Parser.advance, begins, List.drop_one, List.tail_cons] at parsed
  cases found : Parser.upTo 101 tail with
  | none =>
    rw [found] at parsed
    cases parsed
  | some digits =>
    simp only [found] at parsed
    cases read : (Rust.parseI64 digits).filter
        (Rust.signedDecimal · = digits) with
    | none =>
      rw [read] at parsed
      cases parsed
    | some number =>
      simp only [read, Except.ok.injEq, Prod.mk.injEq] at parsed
      obtain ⟨rfl, rfl⟩ := parsed
      obtain ⟨number_, printed⟩ := Option.filter_eq_some_iff.mp read
      obtain ⟨later, rfl⟩ := eq_of_upTo found
      refine ⟨.int digits, .int ⟨number, number_, by simpa using printed⟩,
        ?_, ?_⟩
      · rw [Written.value, number_, Option.getD_some]
      · simp [begins, Written.text]

theorem bytes_sound {content : Bytes} {first : UInt8}
    (starts : parser.rest.head? = some first)
    (digit : Rust.isAsciiDigit first = true)
    (parsed : parser.bytes = .ok (content, next)) :
    ∃ written : WrittenBytes, written.Readable ∧ written.content = content ∧
      parser.rest = written.text ++ next.rest := by
  rw [Parser.bytes] at parsed
  cases found : Parser.upTo 58 parser.rest with
  | none =>
    rw [found] at parsed
    cases parsed
  | some digits =>
    obtain ⟨later, whole⟩ := eq_of_upTo found
    simp only [found, Parser.advance] at parsed
    cases read : Rust.parseUsize digits with
    | none =>
      rw [read] at parsed
      cases parsed
    | some len =>
      simp only [read, whole, drop_upTo] at parsed
      split at parsed
      · cases parsed
      · rename_i enough
        simp only [Except.ok.injEq, Prod.mk.injEq] at parsed
        obtain ⟨rfl, rfl⟩ := parsed
        have isLength : Rust.IsLength digits len := by
          cases digits with
          | nil => cases read
          | cons byte digits =>
            rw [whole] at starts
            cases starts
            exact Rust.isLength_of_parseUsize digit read
        have taken : (later.take len).length = len :=
          List.length_take_of_le (Nat.le_of_not_lt enough)
        refine ⟨⟨digits, later.take len⟩, ?_, rfl, ?_⟩
        · rw [WrittenBytes.Readable, taken]
          exact isLength
        · simp [whole, WrittenBytes.text]

theorem peek_eq_ok {byte : UInt8} (peeked : parser.peek = .ok byte) :
    parser.rest.head? = some byte := by
  rw [Parser.peek] at peeked
  cases rest : parser.rest with
  | nil =>
    rw [rest] at peeked
    cases peeked
  | cons first tail =>
    rw [rest] at peeked
    cases peeked
    rfl

variable {item : Parser → Except BencodeError (Value × Parser)}

/-- What an item of a list or of a dictionary is read as. -/
def ReadsWritten (item : Parser → Except BencodeError (Value × Parser)) :
    Prop :=
  ∀ parser value next, item parser = .ok (value, next) →
    ∃ written : Written, written.Readable ∧ written.value = value ∧
      parser.rest = written.text ++ next.rest

theorem items_sound (reads : ReadsWritten item) {budget : Nat}
    {done values : List Value}
    (parsed : Parser.items item budget done parser = .ok (values, next)) :
    ∃ items : List Written, (∀ item ∈ items, item.Readable) ∧
      values = done ++ valueItems items ∧
        parser.rest = textItems items ++ 101 :: next.rest := by
  induction budget generalizing done parser with
  | zero => cases parsed
  | succ budget ih =>
    obtain ⟨byte, peeked, parsed⟩ := Rust.bind_eq_ok parsed
    obtain ⟨tail, begins⟩ := List.head?_eq_some_iff.mp (peek_eq_ok peeked)
    split at parsed
    · rename_i ends
      cases parsed
      refine ⟨[], nofun, by simp [valueItems], ?_⟩
      simp [begins, ends, textItems, Parser.advance]
    · obtain ⟨⟨value, middle⟩, first, parsed⟩ := Rust.bind_eq_ok parsed
      obtain ⟨written, readable, rfl, whole⟩ := reads _ _ _ first
      obtain ⟨items, readables, rfl, remaining⟩ := ih parsed
      refine ⟨written :: items, ?_, ?_, ?_⟩
      · exact List.forall_mem_cons.mpr ⟨readable, readables⟩
      · simp [valueItems]
      · rw [whole, remaining, textItems, List.append_assoc]

theorem entries_sound (reads : ReadsWritten item) {budget : Nat}
    {done values : List (Bytes × Value)}
    (parsed : Parser.entries item budget done parser = .ok (values, next)) :
    ∃ entries : List (WrittenBytes × Written),
      (∀ entry ∈ entries, entry.1.Readable) ∧
        (∀ entry ∈ entries, entry.2.Readable) ∧
          values = (valueEntries entries).foldl
            (fun map entry => BTreeMap.insert entry.1 entry.2 map) done ∧
            parser.rest = textEntries entries ++ 101 :: next.rest := by
  induction budget generalizing done parser with
  | zero => cases parsed
  | succ budget ih =>
    obtain ⟨byte, peeked, parsed⟩ := Rust.bind_eq_ok parsed
    have starts := peek_eq_ok peeked
    obtain ⟨tail, begins⟩ := List.head?_eq_some_iff.mp starts
    split at parsed
    · rename_i ends
      cases parsed
      refine ⟨[], nofun, nofun, rfl, ?_⟩
      simp [begins, ends, textEntries, Parser.advance]
    · split at parsed
      · cases parsed
      · rename_i digit
        have digit : Rust.isAsciiDigit byte = true := by simpa using digit
        obtain ⟨⟨content, between⟩, first, parsed⟩ :=
          Rust.bind_eq_ok parsed
        obtain ⟨key, keyReadable, rfl, whole⟩ :=
          bytes_sound starts digit first
        obtain ⟨⟨value, middle⟩, second, parsed⟩ := Rust.bind_eq_ok parsed
        obtain ⟨written, readable, rfl, more⟩ := reads _ _ _ second
        obtain ⟨entries, keys, readables, rfl, remaining⟩ := ih parsed
        refine ⟨(key, written) :: entries, ?_, ?_, rfl, ?_⟩
        · exact List.forall_mem_cons.mpr ⟨keyReadable, keys⟩
        · exact List.forall_mem_cons.mpr ⟨readable, readables⟩
        · rw [whole, more, remaining, textEntries, List.append_assoc,
            List.append_assoc]

theorem value_sound (levels : Nat) : ReadsWritten (Parser.value levels) := by
  induction levels with
  | zero => exact fun _ _ _ parsed => by cases parsed
  | succ levels ih =>
    intro parser value next parsed
    obtain ⟨byte, peeked, parsed⟩ := Rust.bind_eq_ok parsed
    have starts := peek_eq_ok peeked
    obtain ⟨tail, begins⟩ := List.head?_eq_some_iff.mp starts
    have advanced : (parser.advance 1).rest = tail := by
      rw [Parser.advance, begins, List.drop_one, List.tail_cons]
    split at parsed
    · rename_i isInt
      exact integer_sound (isInt ▸ starts) parsed
    split at parsed
    · rename_i digit
      obtain ⟨⟨content, middle⟩, read, parsed⟩ := Rust.bind_eq_ok parsed
      cases parsed
      obtain ⟨written, readable, rfl, whole⟩ := bytes_sound starts digit read
      exact ⟨.bytes written, .bytes readable, by rw [Written.value],
        by rw [Written.text, whole]⟩
    split at parsed
    · rename_i isList
      obtain ⟨⟨items, middle⟩, read, parsed⟩ := Rust.bind_eq_ok parsed
      cases parsed
      obtain ⟨items, readable, rfl, remaining⟩ := items_sound ih read
      refine ⟨.list items, .list readable, by simp [Written.value], ?_⟩
      simp [begins, isList, ← advanced, remaining, Written.text]
    split at parsed
    · rename_i isDict
      obtain ⟨⟨entries, middle⟩, read, parsed⟩ := Rust.bind_eq_ok parsed
      cases parsed
      obtain ⟨entries, keys, readable, rfl, remaining⟩ :=
        entries_sound ih read
      refine ⟨.dict entries, .dict keys readable, by
        rw [Written.value, BTreeMap.collect], ?_⟩
      simp [begins, isDict, ← advanced, remaining, Written.text]
    · cases parsed

/-- What is accepted is written somehow. -/
theorem decode_sound {input : Bytes}
    (decoded : Value.decode input = .ok value) :
    ∃ written : Written, written.Readable ∧ written.value = value ∧
      written.text = input := by
  obtain ⟨⟨read, next⟩, parsed, decoded⟩ := Rust.bind_eq_ok decoded
  obtain ⟨written, readable, same, whole⟩ := value_sound _ _ _ _ parsed
  by_cases ended : next.rest = []
  · rw [ended, List.append_nil] at whole
    simp only [ended, ne_eq, not_true_eq_false, if_false] at decoded
    cases decoded
    exact ⟨written, readable, same, whole.symm⟩
  · simp only [ne_eq, ended, not_false_eq_true, if_true] at decoded
    cases decoded

end Sound

section Again

variable {written : Written} {items : List Written}
variable {entries : List (WrittenBytes × Written)}

theorem valueItems_eq : valueItems items = items.map (·.value) := by
  induction items with
  | nil => rfl
  | cons item items ih => rw [valueItems, List.map_cons, ih]

theorem valueEntries_eq : valueEntries entries =
    entries.map fun entry => (entry.1.content, entry.2.value) := by
  induction entries with
  | nil => rfl
  | cons entry entries ih => rw [valueEntries, List.map_cons, ih]

theorem WrittenBytes.write_content {bytes : WrittenBytes}
    (canonical : bytes.Canonical) : writeBytes bytes.content = bytes.text := by
  rw [writeBytes, writeLen, ← canonical, WrittenBytes.text, List.append_assoc]
  rfl

theorem writeItems_valueItems
    (same : ∀ item ∈ items, item.value.write = item.text) :
    writeItems (valueItems items) = textItems items := by
  induction items with
  | nil => rfl
  | cons item items ih =>
    rw [valueItems, writeItems, textItems, same item List.mem_cons_self,
      ih fun other member => same other (List.mem_cons_of_mem _ member)]

theorem writeEntries_valueEntries
    (keys : ∀ entry ∈ entries, entry.1.Canonical)
    (same : ∀ entry ∈ entries, entry.2.value.write = entry.2.text) :
    writeEntries (valueEntries entries) = textEntries entries := by
  induction entries with
  | nil => rfl
  | cons entry entries ih =>
    rw [valueEntries, writeEntries, textEntries,
      WrittenBytes.write_content (keys entry List.mem_cons_self),
      same entry List.mem_cons_self,
      ih (fun other member => keys other (List.mem_cons_of_mem _ member))
        fun other member => same other (List.mem_cons_of_mem _ member)]

/-- Canonical text is written again as it was. -/
theorem write_value (canonical : written.Canonical)
    (readable : written.Readable) : written.value.write = written.text := by
  induction canonical with
  | int digits =>
    cases readable with
    | int isInteger =>
      obtain ⟨number, read, printed⟩ := isInteger
      rw [Written.value, read, Option.getD_some, Value.write, writeInt,
        printed, Written.text]
  | bytes canonical =>
    rw [Written.value, Value.write, Written.text,
      WrittenBytes.write_content canonical]
  | list all ih =>
    cases readable with
    | list readables =>
      rw [Written.value, Value.write, Written.text, writeItems_valueItems
        fun item member => ih item member (readables item member)]
  | @dict entries ascending keys all ih =>
    cases readable with
    | dict _ readables =>
      have sorted : Rust.BTreeMap.Sorted (valueEntries entries) := by
        rw [Rust.BTreeMap.Sorted, valueEntries_eq, List.map_map]
        exact ascending
      rw [Written.value, Rust.BTreeMap.collect_of_sorted sorted, Value.write,
        Written.text, writeEntries_valueEntries keys
          fun entry member => ih entry member (readables entry member)]

/-- The bytes are the text of a canonical value. -/
def IsCanonicalText (bytes : Bytes) : Prop :=
  ∃ written : Written, written.Canonical ∧ written.Readable ∧
    written.text = bytes

theorem isCanonicalText_bytes (content : Bytes) :
    ∃ bytes : WrittenBytes, bytes.Canonical ∧ bytes.Readable ∧
      bytes.content = content ∧ bytes.text = writeBytes content := by
  have canonical : WrittenBytes.Canonical
      ⟨Rust.decimal content.length, content⟩ := rfl
  exact ⟨_, canonical, Rust.isLength_decimal _, rfl,
    (WrittenBytes.write_content canonical).symm⟩

theorem isCanonicalText_items {values : List Value}
    (each : ∀ value ∈ values, IsCanonicalText value.write) :
    ∃ items : List Written, (∀ item ∈ items, item.Canonical) ∧
      (∀ item ∈ items, item.Readable) ∧
        textItems items = writeItems values := by
  induction values with
  | nil => exact ⟨[], nofun, nofun, rfl⟩
  | cons value values ih =>
    obtain ⟨item, canonical, readable, same⟩ := each value List.mem_cons_self
    obtain ⟨items, canonicals, readables, same_⟩ :=
      ih fun other member => each other (List.mem_cons_of_mem _ member)
    refine ⟨item :: items, List.forall_mem_cons.mpr ⟨canonical, canonicals⟩,
      List.forall_mem_cons.mpr ⟨readable, readables⟩, ?_⟩
    rw [textItems, writeItems, same, same_]

theorem isCanonicalText_entries {values : List (Bytes × Value)}
    (each : ∀ entry ∈ values, IsCanonicalText entry.2.write) :
    ∃ entries : List (WrittenBytes × Written),
      entries.map (·.1.content) = values.map (·.1) ∧
        (∀ entry ∈ entries, entry.1.Canonical ∧ entry.2.Canonical) ∧
          (∀ entry ∈ entries, entry.1.Readable ∧ entry.2.Readable) ∧
            textEntries entries = writeEntries values := by
  induction values with
  | nil => exact ⟨[], rfl, nofun, nofun, rfl⟩
  | cons entry values ih =>
    obtain ⟨content, value⟩ := entry
    obtain ⟨written, canonical, readable, same⟩ :=
      each (content, value) List.mem_cons_self
    obtain ⟨key, canonicalKey, readableKey, rfl, sameKey⟩ :=
      isCanonicalText_bytes content
    obtain ⟨entries, keys, canonicals, readables, same_⟩ :=
      ih fun other member => each other (List.mem_cons_of_mem _ member)
    refine ⟨(key, written) :: entries, ?_,
      List.forall_mem_cons.mpr ⟨⟨canonicalKey, canonical⟩, canonicals⟩,
      List.forall_mem_cons.mpr ⟨⟨readableKey, readable⟩, readables⟩, ?_⟩
    · rw [List.map_cons, List.map_cons, keys]
    · rw [textEntries, writeEntries, same, sameKey, same_]

/-- What is written again is canonical, whatever was read. -/
theorem isCanonicalText_write (readable : written.Readable) :
    IsCanonicalText written.value.write := by
  induction readable with
  | @int digits isInteger =>
    exact ⟨.int digits, .int digits, .int isInteger,
      (write_value (.int digits) (.int isInteger)).symm⟩
  | @bytes bytes _ =>
    obtain ⟨again, canonical, readable, -, same⟩ :=
      isCanonicalText_bytes bytes.content
    refine ⟨.bytes again, .bytes canonical, .bytes readable, ?_⟩
    rw [Written.text, Written.value, Value.write, same]
  | @list items all ih =>
    have each : ∀ value ∈ valueItems items,
        IsCanonicalText value.write := by
      intro value member
      rw [valueItems_eq] at member
      obtain ⟨item, among, rfl⟩ := List.mem_map.mp member
      exact ih item among
    obtain ⟨again, canonical, readable, same⟩ := isCanonicalText_items each
    refine ⟨.list again, .list canonical, .list readable, ?_⟩
    rw [Written.text, Written.value, Value.write, same]
  | @dict entries keys all ih =>
    have each : ∀ entry ∈ BTreeMap.collect (valueEntries entries),
        IsCanonicalText entry.2.write := by
      intro value member
      have listed := Rust.BTreeMap.mem_collect member
      rw [valueEntries_eq] at listed
      obtain ⟨entry, among, rfl⟩ := List.mem_map.mp listed
      exact ih entry among
    obtain ⟨again, names, canonical, readable, same⟩ :=
      isCanonicalText_entries each
    refine ⟨.dict again, .dict ?_ (fun entry member =>
      (canonical entry member).1) fun entry member =>
        (canonical entry member).2, .dict (fun entry member =>
      (readable entry member).1) fun entry member =>
        (readable entry member).2, ?_⟩
    · rw [names]
      exact Rust.BTreeMap.sorted_collect
    · rw [Written.text, Written.value, Value.write, same]

/-- A value is written again as it was exactly where it was canonical. -/
theorem write_value_iff (readable : written.Readable) :
    written.value.write = written.text ↔ written.Canonical := by
  constructor
  · intro same
    obtain ⟨again, canonical, readable_, text⟩ :=
      isCanonicalText_write readable
    have whole : again.text ++ [] = written.text ++ [] := by rw [text, same]
    rw [← (Written.unique readable_ readable whole).1]
    exact canonical
  · exact fun canonical => write_value canonical readable

end Again

end Bencode

end Sharerr
