import Sharerr.Torrent.Reading

/-!
# The spellings of a value

One value can be read off several texts.  They differ by the order of the
entries of their dictionaries, and by two things the decoder lets through
besides: a length with zeros in front, and a key given twice.
-/

namespace Sharerr

namespace Bencode

open Rust (BTreeMap.insert BTreeMap.collect)

/-- The two differ only by the order of the entries inside dictionaries. -/
inductive Written.Reordered : Written → Written → Prop where
  | refl (written : Written) : Reordered written written
  | trans {left middle right : Written} (first : Reordered left middle)
      (second : Reordered middle right) : Reordered left right
  | entries {left right : List (WrittenBytes × Written)}
      (perm : left.Perm right) : Reordered (.dict left) (.dict right)
  | item {left right : Written} (front back : List Written)
      (inner : Reordered left right) :
      Reordered (.list (front ++ left :: back)) (.list (front ++ right :: back))
  | value {left right : Written} (front : List (WrittenBytes × Written))
      (key : WrittenBytes) (back : List (WrittenBytes × Written))
      (inner : Reordered left right) :
      Reordered (.dict (front ++ (key, left) :: back))
        (.dict (front ++ (key, right) :: back))

/-- Two texts that differ only so. -/
def SameButForOrder (left right : Bytes) : Prop :=
  ∃ written other : Written, (written.Readable ∧ written.text = left) ∧
    (other.Readable ∧ other.text = right) ∧ written.Reordered other

/-- No length has zeros in front. -/
inductive Written.Unpadded : Written → Prop where
  | int (digits : Bytes) : Unpadded (.int digits)
  | bytes {written : WrittenBytes} (canonical : written.Canonical) :
      Unpadded (.bytes written)
  | list {items : List Written} (all : ∀ item ∈ items, Unpadded item) :
      Unpadded (.list items)
  | dict {entries : List (WrittenBytes × Written)}
      (keys : ∀ entry ∈ entries, entry.1.Canonical)
      (all : ∀ entry ∈ entries, Unpadded entry.2) : Unpadded (.dict entries)

/-- No dictionary gives a key twice. -/
inductive Written.KeysOnce : Written → Prop where
  | int (digits : Bytes) : KeysOnce (.int digits)
  | bytes (written : WrittenBytes) : KeysOnce (.bytes written)
  | list {items : List Written} (all : ∀ item ∈ items, KeysOnce item) :
      KeysOnce (.list items)
  | dict {entries : List (WrittenBytes × Written)}
      (once : (entries.map (·.1.content)).Nodup)
      (all : ∀ entry ∈ entries, KeysOnce entry.2) : KeysOnce (.dict entries)

/-- Every dictionary lists its keys in strictly increasing order. -/
inductive Written.Ascending : Written → Prop where
  | int (digits : Bytes) : Ascending (.int digits)
  | bytes (written : WrittenBytes) : Ascending (.bytes written)
  | list {items : List Written} (all : ∀ item ∈ items, Ascending item) :
      Ascending (.list items)
  | dict {entries : List (WrittenBytes × Written)}
      (ascending : (entries.map (·.1.content)).Pairwise (· < ·))
      (all : ∀ entry ∈ entries, Ascending entry.2) : Ascending (.dict entries)

/-- Every dictionary has in its value as many entries as were read. -/
inductive Written.KeepsEntries : Written → Prop where
  | int (digits : Bytes) : KeepsEntries (.int digits)
  | bytes (written : WrittenBytes) : KeepsEntries (.bytes written)
  | list {items : List Written} (all : ∀ item ∈ items, KeepsEntries item) :
      KeepsEntries (.list items)
  | dict {entries : List (WrittenBytes × Written)}
      (kept : (BTreeMap.collect (valueEntries entries)).length =
        entries.length)
      (all : ∀ entry ∈ entries, KeepsEntries entry.2) :
      KeepsEntries (.dict entries)

namespace Written

variable {written other : Written} {items : List Written}
variable {entries : List (WrittenBytes × Written)}

theorem Reordered.symm (reordered : written.Reordered other) :
    other.Reordered written := by
  induction reordered with
  | refl written => exact .refl written
  | trans _ _ first second => exact .trans second first
  | entries perm => exact .entries perm.symm
  | item front back _ ih => exact .item front back ih
  | value front key back _ ih => exact .value front key back ih

theorem unpadded_list : Unpadded (.list items) ↔
    ∀ item ∈ items, Unpadded item :=
  ⟨fun | .list all => all, .list⟩

theorem unpadded_dict : Unpadded (.dict entries) ↔
    ∀ entry ∈ entries, entry.1.Canonical ∧ Unpadded entry.2 :=
  ⟨fun | .dict keys all => fun entry member =>
    ⟨keys entry member, all entry member⟩,
    fun each => .dict (fun entry member => (each entry member).1)
      fun entry member => (each entry member).2⟩

theorem keysOnce_list : KeysOnce (.list items) ↔
    ∀ item ∈ items, KeysOnce item :=
  ⟨fun | .list all => all, .list⟩

theorem keysOnce_dict : KeysOnce (.dict entries) ↔
    (entries.map (·.1.content)).Nodup ∧
      ∀ entry ∈ entries, KeysOnce entry.2 :=
  ⟨fun | .dict once all => ⟨once, all⟩, fun ⟨once, all⟩ => .dict once all⟩

theorem Reordered.unpadded_iff (reordered : written.Reordered other) :
    written.Unpadded ↔ other.Unpadded := by
  induction reordered with
  | refl => exact Iff.rfl
  | trans _ _ first second => exact first.trans second
  | entries perm =>
    rw [unpadded_dict, unpadded_dict]
    exact forall_congr' fun entry => by rw [perm.mem_iff]
  | item front back _ ih =>
    simp only [unpadded_list, List.forall_mem_append, List.forall_mem_cons,
      ih]
  | value front key back _ ih =>
    simp only [unpadded_dict, List.forall_mem_append, List.forall_mem_cons,
      ih]

theorem canonical_iff :
    written.Canonical ↔ written.Unpadded ∧ written.Ascending := by
  constructor
  · intro canonical
    induction canonical with
    | int digits => exact ⟨.int digits, .int digits⟩
    | bytes canonical => exact ⟨.bytes canonical, .bytes _⟩
    | list _ ih =>
      exact ⟨.list fun item member => (ih item member).1,
        .list fun item member => (ih item member).2⟩
    | dict ascending keys _ ih =>
      exact ⟨.dict keys fun entry member => (ih entry member).1,
        .dict ascending fun entry member => (ih entry member).2⟩
  · intro ⟨unpadded, ascending⟩
    induction unpadded with
    | int digits => exact .int digits
    | bytes canonical => exact .bytes canonical
    | list _ ih =>
      cases ascending with
      | list all =>
        exact .list fun item member => ih item member (all item member)
    | dict keys _ ih =>
      cases ascending with
      | dict ordered all =>
        exact .dict ordered keys fun entry member =>
          ih entry member (all entry member)

theorem KeepsEntries.keysOnce_iff :
    written.KeepsEntries ↔ written.KeysOnce := by
  have keys (entries : List (WrittenBytes × Written)) :
      (valueEntries entries).map (·.1) = entries.map (·.1.content) := by
    rw [valueEntries_eq, List.map_map]
    rfl
  have counted (entries : List (WrittenBytes × Written)) :
      (BTreeMap.collect (valueEntries entries)).length = entries.length ↔
        (entries.map (·.1.content)).Nodup := by
    rw [← keys, ← Rust.BTreeMap.length_collect_iff, valueEntries_eq,
      List.length_map]
  constructor
  · intro kept
    induction kept with
    | int digits => exact .int digits
    | bytes written => exact .bytes written
    | list _ ih => exact .list ih
    | dict kept _ ih => exact .dict ((counted _).mp kept) ih
  · intro once
    induction once with
    | int digits => exact .int digits
    | bytes written => exact .bytes written
    | list _ ih => exact .list ih
    | dict once _ ih => exact .dict ((counted _).mpr once) ih

theorem ofBytes_content {bytes : WrittenBytes} (canonical : bytes.Canonical) :
    WrittenBytes.ofBytes bytes.content = bytes := by
  rw [WrittenBytes.ofBytes, ← canonical]

theorem reordered_items (again : Written → Written) (front : List Written)
    (each : ∀ item ∈ items, item.Reordered (again item)) :
    Reordered (.list (front ++ items)) (.list (front ++ items.map again)) := by
  induction items generalizing front with
  | nil => exact .refl _
  | cons item items ih =>
    have later := ih (front ++ [again item]) fun other member =>
      each other (List.mem_cons_of_mem _ member)
    rw [List.append_assoc, List.append_assoc, List.singleton_append,
      List.singleton_append] at later
    exact .trans (.item front items (each item List.mem_cons_self)) later

theorem reordered_values (again : Written → Written)
    (front : List (WrittenBytes × Written))
    (each : ∀ entry ∈ entries, entry.2.Reordered (again entry.2)) :
    Reordered (.dict (front ++ entries)) (.dict (front ++
      entries.map fun entry => (entry.1, again entry.2))) := by
  induction entries generalizing front with
  | nil => exact .refl _
  | cons entry entries ih =>
    obtain ⟨key, value⟩ := entry
    have later := ih (front ++ [(key, again value)]) fun other member =>
      each other (List.mem_cons_of_mem _ member)
    rw [List.append_assoc, List.append_assoc, List.singleton_append,
      List.singleton_append] at later
    exact .trans (.value front key entries
      (each (key, value) List.mem_cons_self)) later

/-- Nothing but the order of the entries tells such a text from the one that
is written for its value. -/
theorem reordered_written (readable : written.Readable)
    (unpadded : written.Unpadded) (once : written.KeysOnce) :
    written.Reordered written.value.written := by
  induction readable with
  | @int digits isInteger =>
    obtain ⟨number, read, printed⟩ := isInteger
    rw [Written.value, read, Option.getD_some, Value.written, printed]
    exact .refl _
  | @bytes bytes _ =>
    cases unpadded with
    | bytes canonical =>
      rw [Written.value, Value.written, ofBytes_content canonical]
      exact .refl _
  | @list items _ ih =>
    have each := unpadded_list.mp unpadded
    have onces := keysOnce_list.mp once
    rw [Written.value, Value.written, valueItems_eq, writtenItems_eq,
      List.map_map]
    exact reordered_items (fun item => item.value.written) []
      fun item member => ih item member (each item member)
        (onces item member)
  | @dict entries _ _ ih =>
    have each := unpadded_dict.mp unpadded
    obtain ⟨nodup, onces⟩ := keysOnce_dict.mp once
    have values := reordered_values (fun value => value.value.written) []
      fun entry member => ih entry member (each entry member).2
        (onces entry member)
    rw [List.nil_append, List.nil_append] at values
    have names : ((valueEntries entries).map (·.1)).Nodup := by
      rw [valueEntries_eq, List.map_map]
      exact nodup
    have same : (valueEntries entries).map
        (fun entry => (WrittenBytes.ofBytes entry.1, entry.2.written)) =
          entries.map fun entry => (entry.1, entry.2.value.written) := by
      rw [valueEntries_eq, List.map_map]
      refine List.map_congr_left fun entry member => ?_
      rw [Function.comp_apply, ofBytes_content (each entry member).1]
    rw [Written.value, Value.written, writtenEntries_eq]
    refine .trans values (.entries ?_)
    rw [← same]
    exact ((Rust.BTreeMap.collect_perm names).map _).symm

end Written

section Accepted

variable {bytes : Bytes} {value : Value} {file : Written}

/-- The two written values of two texts are those that are compared. -/
theorem reordered_of_sameButForOrder {left right : Written}
    (readable : left.Readable) (readable_ : right.Readable)
    (same : SameButForOrder left.text right.text) :
    left.Reordered right := by
  obtain ⟨written, other, ⟨read, text⟩, ⟨read_, text_⟩, reordered⟩ := same
  have one : written = left :=
    (Written.unique read readable (congrArg (· ++ []) text)).1
  have two : other = right :=
    (Written.unique read_ readable_ (congrArg (· ++ []) text_)).1
  rw [← one, ← two]
  exact reordered

theorem sameButForOrder_written (readable : file.Readable)
    (wellFormed : file.value.WellFormed) (unpadded : file.Unpadded)
    (once : file.KeysOnce) :
    SameButForOrder file.text file.value.encode :=
  ⟨file, file.value.written, ⟨readable, rfl⟩,
    ⟨(sound_written wellFormed).readable, text_written wellFormed⟩,
    Written.reordered_written readable unpadded once⟩

/-- An accepted text tells its value apart from every other spelling, but for
the order of entries, and loses none of them, exactly where no length is
padded and no key is given twice.  If its keys ascend as well, it is what the
encoder writes; and two such texts of one value differ by that order only. -/
theorem spellings_of_accepted (bytes : Bytes) (value : Value)
    (decoded : Value.decode bytes = .ok value) :
    ∃ file : Written,
      (∀ other : Written, other.Readable ∧ other.text = bytes ↔
        other = file) ∧
      (SameButForOrder bytes value.encode ∧ file.KeepsEntries ↔
        file.Unpadded ∧ file.KeysOnce) ∧
      (file.Ascending → (value.encode = bytes ↔ file.Unpadded)) ∧
      ∀ again : Written, again.Readable →
        Value.decode again.text = .ok value →
          file.Unpadded ∧ file.KeysOnce → again.Unpadded ∧ again.KeysOnce →
            SameButForOrder bytes again.text := by
  obtain ⟨file, readable, rfl, rfl⟩ := decode_sound decoded
  obtain ⟨wellFormed, -⟩ := wellFormed_of_decode decoded
  have soundAgain := sound_written wellFormed
  have canonicalAgain := canonical_written wellFormed
  refine ⟨file, ?_, ?_, ?_, ?_⟩
  · intro other
    constructor
    · intro ⟨readable_, text⟩
      exact (Written.unique readable_ readable (congrArg (· ++ []) text)).1
    · intro same
      rw [same]
      exact ⟨readable, rfl⟩
  · constructor
    · intro ⟨same, kept⟩
      rw [← text_written wellFormed] at same
      have reordered :=
        reordered_of_sameButForOrder readable soundAgain.readable same
      exact ⟨reordered.unpadded_iff.mpr
          (Written.canonical_iff.mp canonicalAgain).1,
        Written.KeepsEntries.keysOnce_iff.mp kept⟩
    · intro ⟨unpadded, once⟩
      exact ⟨sameButForOrder_written readable wellFormed unpadded once,
        Written.KeepsEntries.keysOnce_iff.mpr once⟩
  · intro ascending
    rw [Value.encode, write_value_iff readable, Written.canonical_iff]
    exact and_iff_left ascending
  · intro again readable_ decoded_ plain plain_
    obtain ⟨other, read, value, text⟩ := decode_sound decoded_
    have same : other = again :=
      (Written.unique read readable_ (congrArg (· ++ []) text)).1
    rw [same] at value
    have first := Written.reordered_written readable plain.1 plain.2
    have second := Written.reordered_written readable_ plain_.1 plain_.2
    rw [value] at second
    exact ⟨file, again, ⟨readable, rfl⟩, ⟨readable_, rfl⟩,
      .trans first second.symm⟩

end Accepted

def letterA : WrittenBytes := ⟨[49], [97]⟩

/-- The same with a zero in front of its length. -/
def paddedA : WrittenBytes := ⟨[48, 49], [97]⟩

/-- A dictionary that gives a key twice. -/
def givenTwice : Written :=
  .dict [(letterA, .int [49]), (letterA, .int [50])]

theorem readable_letterA : (Written.bytes letterA).Readable :=
  .bytes rfl

theorem readable_paddedA : (Written.bytes paddedA).Readable :=
  .bytes rfl

theorem readable_givenTwice : givenTwice.Readable := by
  have key : letterA.Readable := rfl
  refine .dict (List.forall_mem_cons.mpr ⟨key,
    List.forall_mem_singleton.mpr key⟩) (List.forall_mem_cons.mpr
      ⟨.int ⟨1, by decide, by decide⟩, List.forall_mem_singleton.mpr
        (.int ⟨2, by decide, by decide⟩)⟩)

/-- `1:a` and `01:a` are one value, and not for the order of any entries; and
of a key given twice an entry is dropped. -/
theorem padded_and_doubled_accepted :
    Value.decode (Vault.toUtf8 "1:a") = .ok (.bytes [97]) ∧
      Value.decode (Vault.toUtf8 "01:a") = .ok (.bytes [97]) ∧
      ¬ SameButForOrder (Vault.toUtf8 "1:a") (Vault.toUtf8 "01:a") ∧
      Value.decode (Vault.toUtf8 "d1:ai1e1:ai2ee") =
        .ok (.dict [([97], .int 2)]) ∧
      ∀ file : Written, file.Readable →
        file.text = Vault.toUtf8 "d1:ai1e1:ai2ee" → ¬ file.KeepsEntries := by
  refine ⟨rfl, rfl, ?_, rfl, ?_⟩
  · intro same
    have texts : Vault.toUtf8 "1:a" = (Written.bytes letterA).text ∧
        Vault.toUtf8 "01:a" = (Written.bytes paddedA).text := by
      decide +kernel
    rw [texts.1, texts.2] at same
    have reordered := reordered_of_sameButForOrder readable_letterA
      readable_paddedA same
    have unpadded : (Written.bytes letterA).Unpadded := .bytes rfl
    cases reordered.unpadded_iff.mp unpadded with
    | bytes canonical =>
      unfold WrittenBytes.Canonical at canonical
      exact absurd canonical (by decide)
  · intro file readable text kept
    have same : Vault.toUtf8 "d1:ai1e1:ai2ee" = givenTwice.text := by
      decide +kernel
    rw [same] at text
    have named := (Written.unique readable readable_givenTwice
      (congrArg (· ++ []) text)).1
    rw [named] at kept
    cases Written.KeepsEntries.keysOnce_iff.mp kept with
    | dict once _ => exact absurd once (by decide)

theorem letter_read_again :
    Value.encode (.bytes [97]) = Vault.toUtf8 "1:a" := by
  obtain ⟨file, unique, -, again, -⟩ :=
    spellings_of_accepted (Vault.toUtf8 "1:a") (.bytes [97]) rfl
  have named := (unique (.bytes letterA)).mp
    ⟨readable_letterA, by decide +kernel⟩
  rw [← named] at again
  exact (again (.bytes letterA)).mpr (.bytes rfl)

end Bencode

end Sharerr
