import Mathlib.Data.String.Basic
import Sharerr.Vault.File

/-!
# Writing the vault's file

`persist` writes the records in the order of their names, each with its two
lengths; `parse` reads them back.  A record map is well formed when it is
sorted by name, as a `BTreeMap` is, and every nonce has its length.
-/

namespace Sharerr

namespace Vault

abbrev Records := List (String × SealedRecord)

/-- `to_le_bytes`, by the width in bytes. -/
def leBytes : Nat → Nat → Bytes
  | 0, _ => []
  | width + 1, value => UInt8.ofNat (value % 256) :: leBytes width (value / 256)

/-- One record as `persist` writes it. -/
def recordBytes (entry : String × SealedRecord) : Except VaultError Bytes :=
  let keyBytes := toUtf8 entry.1
  if 65535 < keyBytes.length then .error (.corrupt "secret key name too long")
  else if 4294967295 < entry.2.ciphertext.length then
    .error (.corrupt "secret value too long")
  else
    .ok (leBytes 2 keyBytes.length ++ keyBytes ++ entry.2.nonce ++
      leBytes 4 entry.2.ciphertext.length ++ entry.2.ciphertext)

def recordsBytes : Records → Except VaultError Bytes
  | [] => .ok []
  | entry :: entries => do
      let first ← recordBytes entry
      let rest ← recordsBytes entries
      return first ++ rest

/-- The bytes `persist` writes. -/
def serialise (salt : Bytes) (records : Records) :
    Except VaultError Bytes := do
  let body ← recordsBytes records
  return vaultVersion :: salt ++ body

/-- A map as a `BTreeMap` holds it. -/
structure WellFormed (records : Records) : Prop where
  sorted : records.Pairwise fun left right => left.1 < right.1
  nonces : ∀ entry ∈ records, entry.2.nonce.length = nonceLen

def recordOf (records : Records) (key : String) : Option SealedRecord :=
  (records.find? fun entry => entry.1 = key).map (·.2)

/-- What `BTreeMap::remove` leaves. -/
def removeRecord (key : String) (records : Records) : Records :=
  records.filter fun entry => entry.1 ≠ key

@[simp] theorem length_leBytes (width value : Nat) :
    (leBytes width value).length = width := by
  induction width generalizing value with
  | zero => rfl
  | succ width ih => simp [leBytes, ih]

theorem littleEndian_leBytes {width value : Nat}
    (fits : value < 256 ^ width) :
    littleEndian (leBytes width value) = value := by
  induction width generalizing value with
  | zero =>
    have none : value = 0 := by simpa using fits
    simp [leBytes, littleEndian, none]
  | succ width ih =>
    have smaller : value / 256 < 256 ^ width := by
      rw [Nat.div_lt_iff_lt_mul (by decide)]
      rw [Nat.pow_succ] at fits
      exact fits
    rw [leBytes, littleEndian, ih smaller]
    have byte : (UInt8.ofNat (value % 256)).toNat = value % 256 := by
      simp
    rw [byte]
    omega

variable {rest bytes raw : Bytes} {entry : String × SealedRecord} {key : String}
  {record : SealedRecord} {records : Records}

theorem take_append {taken : Bytes} {len : Nat} (length : taken.length = len) :
    take (taken ++ rest) len = .ok (taken, rest) := by
  subst length
  simp [take]

theorem readLe_leBytes {width value : Nat} (fits : value < 256 ^ width)
    (rest : Bytes) :
    readLe (leBytes width value ++ rest) width = .ok (value, rest) := by
  rw [readLe, take_append (length_leBytes width value)]
  simp only [bind, Except.bind, pure, Except.pure,
    littleEndian_leBytes fits]

theorem fromUtf8_toUtf8 (text : String) :
    fromUtf8 (toUtf8 text) = some text := by
  have whole : (⟨text.toUTF8.data.toList.toArray⟩ : ByteArray) =
      text.toByteArray := by
    simp
  rw [fromUtf8, toUtf8, whole, String.fromUTF8?, dif_pos text.isValidUTF8]
  rfl

theorem eq_toUtf8_of_fromUtf8 {text : String}
    (decoded : fromUtf8 bytes = some text) : bytes = toUtf8 text := by
  simp only [fromUtf8, String.fromUTF8?] at decoded
  split at decoded
  · cases decoded
    rfl
  · cases decoded

theorem parseRecord_recordBytes (nonce : entry.2.nonce.length = nonceLen)
    (written : recordBytes entry = .ok bytes) (rest : Bytes) :
    parseRecord (bytes ++ rest) = .ok (entry, rest) := by
  obtain ⟨key, record⟩ := entry
  simp only [recordBytes] at written
  split at written
  · cases written
  · split at written
    · cases written
    · rename_i shortName shortValue
      cases written
      have nameFits : (toUtf8 key).length < 256 ^ 2 := by omega
      have valueFits : record.ciphertext.length < 256 ^ 4 := by omega
      simp only [List.append_assoc, parseRecord, readLe_leBytes nameFits,
        bind, Except.bind, take_append rfl, fromUtf8_toUtf8, Option.elim_some,
        take_append nonce, readLe_leBytes valueFits, pure, Except.pure]

/-- A name after all the others goes last. -/
theorem insertRecord_last (below : ∀ entry ∈ records, entry.1 < key) :
    insertRecord key record records = records ++ [(key, record)] := by
  induction records with
  | nil => rfl
  | cons entry entries ih =>
    have first := below entry List.mem_cons_self
    rw [insertRecord, if_neg (ne_of_gt first), if_neg (lt_asymm first),
      ih fun other member => below other (List.mem_cons_of_mem _ member)]
    rfl

theorem parseRecords_recordsBytes (formed : WellFormed records)
    (written : recordsBytes records = .ok bytes) :
    ∀ (read : Records) (turns : Nat), bytes.length ≤ turns →
      (∀ entry ∈ read, ∀ next ∈ records, entry.1 < next.1) →
        parseRecords turns bytes read = .ok (read ++ records) := by
  induction records generalizing bytes with
  | nil =>
    cases written
    intro read turns _ _
    cases turns <;> simp [parseRecords]
  | cons entry entries ih =>
    obtain ⟨first, one, written⟩ := Rust.bind_eq_ok written
    obtain ⟨others, rest, written⟩ := Rust.bind_eq_ok written
    cases written
    obtain ⟨lowest, tail⟩ := List.pairwise_cons.mp formed.sorted
    have formedTail : WellFormed entries :=
      ⟨tail, fun other member =>
        formed.nonces other (List.mem_cons_of_mem _ member)⟩
    have parsed := parseRecord_recordBytes
      (formed.nonces entry List.mem_cons_self) one others
    have shorter := length_of_parseRecord parsed
    intro read turns enough below
    cases turns with
    | zero => omega
    | succ turns =>
      cases whole : first ++ others with
      | nil => simp [whole] at shorter
      | cons byte tail =>
        rw [whole] at parsed shorter enough
        have fits : others.length ≤ turns := by omega
        have last : insertRecord entry.1 entry.2 read =
            read ++ [entry] :=
          insertRecord_last fun other member =>
            below other member entry List.mem_cons_self
        simp only [parseRecords, parsed, bind, Except.bind, last]
        rw [ih formedTail rest (read ++ [entry]) turns fits ?_]
        · simp
        · intro other member next later
          rcases List.mem_append.mp member with old | new
          · exact below other old next (List.mem_cons_of_mem _ later)
          · rw [List.mem_singleton.mp new]
            exact lowest next later

/-- `parse` reads back what `persist` wrote. -/
theorem parse_serialise {salt : Bytes} (length : salt.length = saltLen)
    (formed : WellFormed records) (written : serialise salt records = .ok raw) :
    parse raw = .ok (salt, records) := by
  obtain ⟨body, one, written⟩ := Rust.bind_eq_ok written
  cases written
  have enough : body.length ≤ (vaultVersion :: salt ++ body).length := by
    simp only [List.cons_append, List.length_cons, List.length_append]
    omega
  have read := parseRecords_recordsBytes formed one [] _ enough
    fun entry member => absurd member List.not_mem_nil
  have long : ¬ (vaultVersion :: salt ++ body).length < 1 + saltLen := by
    simp only [List.cons_append, List.length_cons, List.length_append, length]
    omega
  simp only [List.cons_append, List.nil_append] at read long ⊢
  simp only [parse, long, if_false, ne_eq, not_true_eq_false]
  simp only [← length, List.drop_left, List.take_left, read, bind,
    Except.bind, pure, Except.pure]

@[simp] theorem recordOf_insertRecord_same (key : String)
    (record : SealedRecord) (records : Records) :
    recordOf (insertRecord key record records) key = some record := by
  induction records with
  | nil => simp [insertRecord, recordOf]
  | cons entry rest ih =>
    obtain ⟨name, stored⟩ := entry
    simp only [insertRecord]
    split
    · simp [recordOf]
    · rename_i different
      split
      · simp [recordOf]
      · simpa [recordOf, List.find?_cons, Ne.symm different] using ih

theorem recordOf_insertRecord_other {other : String} (different : other ≠ key)
    (record : SealedRecord) (records : Records) :
    recordOf (insertRecord key record records) other =
      recordOf records other := by
  induction records with
  | nil => simp [insertRecord, recordOf, Ne.symm different]
  | cons entry rest ih =>
    obtain ⟨name, stored⟩ := entry
    simp only [insertRecord]
    split
    · rename_i same
      subst same
      simp [recordOf, Ne.symm different]
    · split
      · simp [recordOf, List.find?_cons, Ne.symm different]
      · simp only [recordOf, List.find?_cons] at ih ⊢
        split
        · rfl
        · exact ih

@[simp] theorem recordOf_removeRecord_same (key : String)
    (records : Records) : recordOf (removeRecord key records) key = none := by
  simp [recordOf, removeRecord, List.find?_filter]

theorem recordOf_removeRecord_other {other : String} (different : other ≠ key)
    (records : Records) :
    recordOf (removeRecord key records) other = recordOf records other := by
  rw [recordOf, removeRecord, List.find?_filter, recordOf]
  congr 2
  funext entry
  simp only [ne_eq, decide_not, Bool.not_eq_eq_eq_not, Bool.not_true,
    decide_eq_false_iff_not, decide_eq_true_eq]
  by_cases named : entry.1 = other
  · simp [named, different]
  · simp [named]

theorem removeRecord_of_absent (absent : recordOf records key = none) :
    removeRecord key records = records := by
  simp only [recordOf, Option.map_eq_none_iff, List.find?_eq_none,
    decide_eq_true_eq] at absent
  simp only [removeRecord, List.filter_eq_self, ne_eq, decide_not,
    Bool.not_eq_eq_eq_not, Bool.not_true, decide_eq_false_iff_not]
  exact absent

/-- Putting the record that is there already. -/
theorem insertRecord_of_present
    (sorted : records.Pairwise fun left right => left.1 < right.1)
    (present : recordOf records key = some record) :
    insertRecord key record records = records := by
  induction records with
  | nil => cases present
  | cons entry rest ih =>
    obtain ⟨name, stored⟩ := entry
    obtain ⟨lowest, tail⟩ := List.pairwise_cons.mp sorted
    simp only [insertRecord]
    split
    · rename_i same
      subst same
      have held : stored = record := by simpa [recordOf] using present
      rw [held]
    · rename_i different
      have later : recordOf rest key = some record := by
        simpa [recordOf, List.find?_cons, Ne.symm different] using present
      have after : name < key := by
        obtain ⟨found, member, -⟩ := Option.map_eq_some_iff.mp later
        have named := List.find?_some member
        have above := lowest found (List.mem_of_find?_eq_some member)
        rwa [decide_eq_true_eq.mp named] at above
      rw [if_neg (lt_asymm after), ih tail later]

theorem get_congr {Cipher : Type} {crypto : Crypto Cipher}
    {left right : Vault Cipher} (ciphers : left.cipher = right.cipher)
    (found : recordOf left.records key = recordOf right.records key) :
    left.get crypto key = right.get crypto key := by
  have same : left.record? key = right.record? key := found
  simp only [get, same, ciphers]

theorem mem_insertRecord (member : entry ∈ insertRecord key record records) :
    entry = (key, record) ∨ entry ∈ records := by
  induction records with
  | nil => exact .inl (List.mem_singleton.mp member)
  | cons other rest ih =>
    obtain ⟨name, stored⟩ := other
    simp only [insertRecord] at member
    split at member
    · rcases List.mem_cons.mp member with same | later
      · exact .inl same
      · exact .inr (List.mem_cons_of_mem _ later)
    · split at member
      · rcases List.mem_cons.mp member with same | later
        · exact .inl same
        · exact .inr later
      · rcases List.mem_cons.mp member with same | later
        · exact .inr (same ▸ List.mem_cons_self)
        · rcases ih later with same | old
          · exact .inl same
          · exact .inr (List.mem_cons_of_mem _ old)

theorem WellFormed.insertRecord (formed : WellFormed records)
    (nonce : record.nonce.length = nonceLen) :
    WellFormed (Vault.insertRecord key record records) := by
  constructor
  · have sorted := formed.sorted
    induction records with
    | nil => exact List.pairwise_singleton _ _
    | cons other rest ih =>
      obtain ⟨name, stored⟩ := other
      obtain ⟨lowest, tail⟩ := List.pairwise_cons.mp sorted
      have formedTail : WellFormed rest :=
        ⟨tail, fun entry member =>
          formed.nonces entry (List.mem_cons_of_mem _ member)⟩
      simp only [Vault.insertRecord]
      split
      · rename_i same
        subst same
        exact List.pairwise_cons.mpr ⟨lowest, tail⟩
      · rename_i different
        split
        · rename_i before
          refine List.pairwise_cons.mpr ⟨?_, sorted⟩
          intro entry member
          rcases List.mem_cons.mp member with rfl | later
          · exact before
          · exact lt_trans before (lowest entry later)
        · rename_i notBefore
          have after : name < key :=
            lt_of_le_of_ne (not_lt.mp notBefore) (Ne.symm different)
          refine List.pairwise_cons.mpr ⟨?_, ih formedTail tail⟩
          intro entry member
          rcases mem_insertRecord member with rfl | old
          · exact after
          · exact lowest entry old
  · intro entry member
    rcases mem_insertRecord member with rfl | old
    · exact nonce
    · exact formed.nonces entry old

theorem WellFormed.of_sublist {fewer : Records} (formed : WellFormed records)
    (sublist : fewer.Sublist records) :
    WellFormed fewer :=
  ⟨formed.sorted.sublist sublist,
    fun entry member => formed.nonces entry (sublist.subset member)⟩

theorem WellFormed.nil : WellFormed [] :=
  ⟨.nil, fun _ member => absurd member List.not_mem_nil⟩

theorem length_taken {taken : Bytes} {len : Nat}
    (read : take raw len = .ok (taken, rest)) : taken.length = len := by
  simp only [take] at read
  split at read
  · cases read
  · cases read
    simp only [List.length_take]
    omega

theorem nonce_of_parseRecord (read : parseRecord raw = .ok (entry, rest)) :
    entry.2.nonce.length = nonceLen := by
  obtain ⟨⟨keyLen, afterLen⟩, -, read⟩ := Rust.bind_eq_ok read
  obtain ⟨⟨keyBytes, afterKey⟩, -, read⟩ := Rust.bind_eq_ok read
  obtain ⟨key, -, read⟩ := Rust.bind_eq_ok read
  obtain ⟨⟨nonce, afterNonce⟩, readNonce, read⟩ := Rust.bind_eq_ok read
  obtain ⟨⟨ctLen, afterCtLen⟩, -, read⟩ := Rust.bind_eq_ok read
  obtain ⟨⟨ciphertext, left⟩, -, read⟩ := Rust.bind_eq_ok read
  cases read
  exact length_taken readNonce

theorem WellFormed.of_parseRecords {turns : Nat} {read : Records}
    (formed : WellFormed read)
    (parsed : parseRecords turns raw read = .ok records) :
    WellFormed records := by
  induction turns generalizing raw read with
  | zero =>
    cases raw with
    | nil =>
      cases parsed
      exact formed
    | cons byte rest =>
      cases parsed
      exact formed
  | succ turns ih =>
    cases raw with
    | nil =>
      cases parsed
      exact formed
    | cons byte rest =>
      obtain ⟨⟨⟨key, record⟩, left⟩, one, parsed⟩ :=
        Rust.bind_eq_ok parsed
      exact ih (formed.insertRecord (nonce_of_parseRecord one)) parsed

/-- What `parse` reads is well formed. -/
theorem wellFormed_of_parse {salt : Bytes}
    (parsed : parse raw = .ok (salt, records)) :
    salt.length = saltLen ∧ WellFormed records := by
  unfold parse at parsed
  split at parsed
  · cases parsed
  · rename_i long
    split at parsed
    · cases parsed
    · split at parsed
      · cases parsed
      · obtain ⟨read, all, parsed⟩ := Rust.bind_eq_ok parsed
        cases parsed
        refine ⟨?_, WellFormed.nil.of_parseRecords all⟩
        simp only [List.length_cons] at long
        simp only [List.length_take]
        omega

end Vault

end Sharerr
