import Sharerr.Torrent.Bencode

/-!
# How a value is written

The decoder forgets how the bytes it read were laid out: the order of the keys
of a dictionary, a key given twice, zeros in front of a length.  A written
value keeps all of that.  Bytes are the text of one written value at most, and
what the decoder makes of them is the value of that.
-/

namespace Sharerr

namespace Bencode

open Rust (IsLength)

/-- A byte string is its length as it is written, and its content. -/
structure WrittenBytes where
  length : Bytes
  content : Bytes
deriving DecidableEq, Repr

inductive Written where
  | int (digits : Bytes)
  | bytes (written : WrittenBytes)
  | list (items : List Written)
  | dict (entries : List (WrittenBytes × Written))
deriving Repr

def WrittenBytes.text (written : WrittenBytes) : Bytes :=
  written.length ++ 58 :: written.content

mutual

/-- The bytes themselves. -/
def Written.text : Written → Bytes
  | .int digits => 105 :: digits ++ [101]
  | .bytes written => written.text
  | .list items => 108 :: textItems items ++ [101]
  | .dict entries => 100 :: textEntries entries ++ [101]

def textItems : List Written → Bytes
  | [] => []
  | item :: items => item.text ++ textItems items

def textEntries : List (WrittenBytes × Written) → Bytes
  | [] => []
  | (key, value) :: entries => key.text ++ value.text ++ textEntries entries

end

mutual

/-- The value the decoder makes of it. -/
def Written.value : Written → Value
  | .int digits => .int ((Rust.parseI64 digits).getD 0)
  | .bytes written => .bytes written.content
  | .list items => .list (valueItems items)
  | .dict entries => .dict (Rust.BTreeMap.collect (valueEntries entries))

def valueItems : List Written → List Value
  | [] => []
  | item :: items => item.value :: valueItems items

def valueEntries : List (WrittenBytes × Written) → List (Bytes × Value)
  | [] => []
  | (key, value) :: entries =>
    (key.content, value.value) :: valueEntries entries

end

def WrittenBytes.Readable (written : WrittenBytes) : Prop :=
  IsLength written.length written.content.length

/-- The digits of an integer are those it is printed with. -/
def IsInteger (digits : Bytes) : Prop :=
  ∃ number, Rust.parseI64 digits = some number ∧
    Rust.signedDecimal number = digits

/-- The lengths are those of what comes after them, and the integers are in
range. -/
inductive Written.Readable : Written → Prop where
  | int {digits : Bytes} (isInteger : IsInteger digits) : Readable (.int digits)
  | bytes {written : WrittenBytes} (readable : written.Readable) :
      Readable (.bytes written)
  | list {items : List Written} (all : ∀ item ∈ items, Readable item) :
      Readable (.list items)
  | dict {entries : List (WrittenBytes × Written)}
      (keys : ∀ entry ∈ entries, entry.1.Readable)
      (all : ∀ entry ∈ entries, Readable entry.2) : Readable (.dict entries)

def WrittenBytes.Canonical (written : WrittenBytes) : Prop :=
  written.length = Rust.decimal written.content.length

/-- Every length is written without zeros in front, and the keys of every
dictionary stand in order, each of them once. -/
inductive Written.Canonical : Written → Prop where
  | int (digits : Bytes) : Canonical (.int digits)
  | bytes {written : WrittenBytes} (canonical : written.Canonical) :
      Canonical (.bytes written)
  | list {items : List Written} (all : ∀ item ∈ items, Canonical item) :
      Canonical (.list items)
  | dict {entries : List (WrittenBytes × Written)}
      (ascending : (entries.map (·.1.content)).Pairwise (· < ·))
      (keys : ∀ entry ∈ entries, entry.1.Canonical)
      (all : ∀ entry ∈ entries, Canonical entry.2) : Canonical (.dict entries)

theorem split_unique {mark : UInt8} {left right rest other : Bytes}
    (clean : mark ∉ left) (clean_ : mark ∉ right)
    (same : left ++ mark :: rest = right ++ mark :: other) :
    left = right ∧ rest = other := by
  induction left generalizing right with
  | nil =>
    cases right with
    | nil => exact ⟨rfl, (List.cons.inj same).2⟩
    | cons byte right =>
      exact absurd ((List.cons.inj same).1 ▸ List.mem_cons_self) clean_
  | cons byte left ih =>
    cases right with
    | nil => exact absurd ((List.cons.inj same).1 ▸ List.mem_cons_self) clean
    | cons byte_ right =>
      obtain ⟨rfl, tail⟩ := List.cons.inj same
      obtain ⟨rfl, rfl⟩ := ih (fun member => clean (.tail _ member))
        (fun member => clean_ (.tail _ member)) tail
      exact ⟨rfl, rfl⟩

theorem colon_notMem {digits : Bytes} {len : Nat}
    (isLength : IsLength digits len) : (58 : UInt8) ∉ digits :=
  fun member => absurd (Rust.isAsciiDigit_of_isLength isLength member)
    (by decide)

theorem end_notMem {digits : Bytes} (isInteger : IsInteger digits) :
    (101 : UInt8) ∉ digits := by
  obtain ⟨number, -, rfl⟩ := isInteger
  intro member
  rcases Rust.mem_signedDecimal member with sign | digit
  · cases sign
  · cases digit

section Unique

variable {rest other : Bytes}

theorem WrittenBytes.unique {left right : WrittenBytes}
    (readable : left.Readable) (readable_ : right.Readable)
    (same : left.text ++ rest = right.text ++ other) :
    left = right ∧ rest = other := by
  obtain ⟨length, content⟩ := left
  obtain ⟨length_, content_⟩ := right
  simp only [WrittenBytes.text, List.append_assoc, List.cons_append] at same
  obtain ⟨rfl, contents⟩ := split_unique (colon_notMem readable)
    (colon_notMem readable_) same
  have lengths : content.length = content_.length :=
    Option.some.inj (readable.symm.trans readable_)
  obtain ⟨rfl, rfl⟩ := List.append_inj contents lengths
  exact ⟨rfl, rfl⟩

/-- The first byte of a byte string is a digit. -/
theorem WrittenBytes.first {written : WrittenBytes}
    (readable : written.Readable) : ∃ first tail, written.text = first :: tail ∧
      Rust.isAsciiDigit first = true := by
  obtain ⟨length, content⟩ := written
  obtain ⟨first, tail, rfl⟩ :=
    List.exists_cons_of_ne_nil (Rust.ne_nil_of_isLength readable)
  exact ⟨first, _, rfl,
    Rust.isAsciiDigit_of_isLength readable List.mem_cons_self⟩

theorem WrittenBytes.not_letter {written : WrittenBytes}
    (readable : written.Readable) {letter : UInt8} {tail : Bytes}
    (notDigit : Rust.isAsciiDigit letter = false) :
    written.text ++ rest ≠ letter :: tail := by
  intro same
  obtain ⟨first, text, starts, digit⟩ := WrittenBytes.first readable
  rw [starts] at same
  rw [(List.cons.inj same).1, notDigit] at digit
  cases digit

/-- No value begins with the end of another. -/
theorem Written.first {written : Written} (readable : written.Readable) :
    ∃ first tail, written.text = first :: tail ∧ first ≠ 101 := by
  cases readable with
  | int _ => exact ⟨105, _, by rw [text]; rfl, by decide⟩
  | bytes readable =>
    obtain ⟨first, tail, starts, digit⟩ := WrittenBytes.first readable
    refine ⟨first, tail, by rw [text, starts], ?_⟩
    rintro rfl
    cases digit
  | list _ => exact ⟨108, _, by rw [text]; rfl, by decide⟩
  | dict _ _ => exact ⟨100, _, by rw [text]; rfl, by decide⟩

theorem textItems_unique {items : List Written}
    (unique : ∀ item ∈ items, ∀ written rest other, written.Readable →
      item.text ++ rest = written.text ++ other →
        item = written ∧ rest = other)
    (readable : ∀ item ∈ items, item.Readable) {items_ : List Written}
    (readable_ : ∀ item ∈ items_, item.Readable)
    (same : textItems items ++ 101 :: rest =
      textItems items_ ++ 101 :: other) : items = items_ ∧ rest = other := by
  induction items generalizing items_ with
  | nil =>
    cases items_ with
    | nil => exact ⟨rfl, (List.cons.inj same).2⟩
    | cons item items_ =>
      obtain ⟨first, tail, starts, apart⟩ :=
        Written.first (readable_ item List.mem_cons_self)
      rw [textItems, textItems, starts] at same
      exact absurd (List.cons.inj same).1.symm apart
  | cons item items ih =>
    cases items_ with
    | nil =>
      obtain ⟨first, tail, starts, apart⟩ :=
        Written.first (readable item List.mem_cons_self)
      rw [textItems, textItems, starts] at same
      exact absurd (List.cons.inj same).1 apart
    | cons item_ items_ =>
      rw [textItems, textItems, List.append_assoc,
        List.append_assoc] at same
      obtain ⟨rfl, remaining⟩ := unique item List.mem_cons_self item_ _ _
        (readable_ item_ List.mem_cons_self) same
      obtain ⟨rfl, rfl⟩ := ih
        (fun item member => unique item (.tail _ member))
        (fun item member => readable item (.tail _ member))
        (fun item member => readable_ item (.tail _ member)) remaining
      exact ⟨rfl, rfl⟩

theorem textEntries_unique {entries : List (WrittenBytes × Written)}
    (unique : ∀ entry ∈ entries, ∀ written rest other, written.Readable →
      entry.2.text ++ rest = written.text ++ other →
        entry.2 = written ∧ rest = other)
    (keys : ∀ entry ∈ entries, entry.1.Readable)
    {entries_ : List (WrittenBytes × Written)}
    (keys_ : ∀ entry ∈ entries_, entry.1.Readable)
    (readable_ : ∀ entry ∈ entries_, entry.2.Readable)
    (same : textEntries entries ++ 101 :: rest =
      textEntries entries_ ++ 101 :: other) :
    entries = entries_ ∧ rest = other := by
  induction entries generalizing entries_ with
  | nil =>
    cases entries_ with
    | nil => exact ⟨rfl, (List.cons.inj same).2⟩
    | cons entry entries_ =>
      rw [textEntries, textEntries, List.append_assoc,
        List.append_assoc] at same
      exact absurd same.symm (WrittenBytes.not_letter
        (keys_ entry List.mem_cons_self) (by decide))
  | cons entry entries ih =>
    obtain ⟨key, value⟩ := entry
    cases entries_ with
    | nil =>
      rw [textEntries, textEntries, List.append_assoc,
        List.append_assoc] at same
      exact absurd same (WrittenBytes.not_letter
        (keys (key, value) List.mem_cons_self) (by decide))
    | cons entry_ entries_ =>
      obtain ⟨key_, value_⟩ := entry_
      simp only [textEntries, List.append_assoc] at same
      obtain ⟨rfl, values⟩ := WrittenBytes.unique
        (keys (key, value) List.mem_cons_self)
        (keys_ (key_, value_) List.mem_cons_self) same
      obtain ⟨rfl, remaining⟩ := unique (key, value) List.mem_cons_self
        value_ _ _ (readable_ (key, value_) List.mem_cons_self) values
      obtain ⟨rfl, rfl⟩ := ih
        (fun entry member => unique entry (.tail _ member))
        (fun entry member => keys entry (.tail _ member))
        (fun entry member => keys_ entry (.tail _ member))
        (fun entry member => readable_ entry (.tail _ member)) remaining
      exact ⟨rfl, rfl⟩

/-- Bytes can be read in one way only. -/
theorem Written.unique {left right : Written} (readable : left.Readable)
    (readable_ : right.Readable)
    (same : left.text ++ rest = right.text ++ other) :
    left = right ∧ rest = other := by
  induction readable generalizing right rest other with
  | @int digits isInteger =>
    cases readable_ with
    | @int digits_ isInteger_ =>
      simp only [text, List.cons_append, List.append_assoc,
        List.nil_append] at same
      obtain ⟨rfl, rfl⟩ := split_unique (end_notMem isInteger)
        (end_notMem isInteger_) (List.cons.inj same).2
      exact ⟨rfl, rfl⟩
    | bytes readable_ =>
      simp only [text, List.cons_append] at same
      exact absurd same.symm (WrittenBytes.not_letter readable_ (by decide))
    | list _ => simp [text] at same
    | dict _ _ => simp [text] at same
  | bytes readable =>
    cases readable_ with
    | int _ =>
      simp only [text, List.cons_append] at same
      exact absurd same (WrittenBytes.not_letter readable (by decide))
    | bytes readable_ =>
      rw [text, text] at same
      obtain ⟨rfl, rfl⟩ := WrittenBytes.unique readable readable_ same
      exact ⟨rfl, rfl⟩
    | list _ =>
      simp only [text, List.cons_append] at same
      exact absurd same (WrittenBytes.not_letter readable (by decide))
    | dict _ _ =>
      simp only [text, List.cons_append] at same
      exact absurd same (WrittenBytes.not_letter readable (by decide))
  | list all ih =>
    cases readable_ with
    | int _ => simp [text] at same
    | bytes readable_ =>
      simp only [text, List.cons_append] at same
      exact absurd same.symm (WrittenBytes.not_letter readable_ (by decide))
    | list all_ =>
      simp only [text, List.cons_append, List.append_assoc,
        List.nil_append] at same
      obtain ⟨rfl, rfl⟩ := textItems_unique
        (fun item member _ _ _ readable => ih item member readable)
        all all_ (List.cons.inj same).2
      exact ⟨rfl, rfl⟩
    | dict _ _ => simp [text] at same
  | dict keys all ih =>
    cases readable_ with
    | int _ => simp [text] at same
    | bytes readable_ =>
      simp only [text, List.cons_append] at same
      exact absurd same.symm (WrittenBytes.not_letter readable_ (by decide))
    | list _ => simp [text] at same
    | dict keys_ all_ =>
      simp only [text, List.cons_append, List.append_assoc,
        List.nil_append] at same
      obtain ⟨rfl, rfl⟩ := textEntries_unique
        (fun entry member _ _ _ readable => ih entry member readable)
        keys keys_ all_ (List.cons.inj same).2
      exact ⟨rfl, rfl⟩

end Unique

end Bencode

end Sharerr
