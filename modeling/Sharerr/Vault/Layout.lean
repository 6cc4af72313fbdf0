import Sharerr.Vault.Format

/-!
# What the bytes of a vault stand for

Every byte string `parse` accepts is a header and the records it lists, one
after the other; with the names in order it is the one `persist` would write.
Cut anywhere else than behind a record, it is refused.
-/

namespace Sharerr

namespace Vault

/-- The records of a file in the order they are in. -/
def listRecords : Nat → Bytes → Except VaultError Records
  | _, [] => .ok []
  | 0, _ :: _ => .ok []
  | turns + 1, byte :: rest => do
      let (entry, rest) ← parseRecord (byte :: rest)
      let later ← listRecords turns rest
      return entry :: later

/-- The file lists distinct names in increasing order. -/
def NamesInOrder (raw : Bytes) : Prop :=
  ∃ entries, listRecords raw.length (raw.drop (1 + saltLen)) = .ok entries ∧
    entries.Pairwise fun left right => left.1 < right.1

theorem leBytes_littleEndian (bytes : Bytes) :
    leBytes bytes.length (littleEndian bytes) = bytes := by
  induction bytes with
  | nil => rfl
  | cons byte bytes ih =>
    have small := byte.toNat_lt
    have low : (byte.toNat + 256 * littleEndian bytes) % 256 =
        byte.toNat := by
      omega
    have high : (byte.toNat + 256 * littleEndian bytes) / 256 =
        littleEndian bytes := by
      omega
    rw [littleEndian, List.length_cons, leBytes, low, high, ih]
    simp

theorem littleEndian_lt (bytes : Bytes) :
    littleEndian bytes < 256 ^ bytes.length := by
  induction bytes with
  | nil => exact Nat.one_pos
  | cons byte bytes ih =>
    have small := byte.toNat_lt
    rw [littleEndian, List.length_cons, Nat.pow_succ]
    omega

variable {raw rest salt : Bytes} {entries records : Records}

theorem append_of_take {taken : Bytes} {len : Nat}
    (read : take raw len = .ok (taken, rest)) :
    taken.length = len ∧ raw = taken ++ rest := by
  refine ⟨length_taken read, ?_⟩
  simp only [take] at read
  split at read
  · cases read
  · cases read
    exact (List.take_append_drop len raw).symm

theorem append_of_readLe {width value : Nat}
    (read : readLe raw width = .ok (value, rest)) :
    value < 256 ^ width ∧ raw = leBytes width value ++ rest := by
  obtain ⟨⟨bytes, left⟩, taken, finished⟩ := Rust.bind_eq_ok read
  cases finished
  obtain ⟨rfl, whole⟩ := append_of_take taken
  refine ⟨littleEndian_lt bytes, ?_⟩
  rw [leBytes_littleEndian]
  exact whole

theorem recordBytes_of_parseRecord {entry : String × SealedRecord}
    (read : parseRecord raw = .ok (entry, rest)) :
    ∃ bytes, recordBytes entry = .ok bytes ∧ raw = bytes ++ rest := by
  obtain ⟨⟨keyLen, afterLen⟩, readLen, read⟩ := Rust.bind_eq_ok read
  obtain ⟨⟨keyBytes, afterKey⟩, readKey, read⟩ := Rust.bind_eq_ok read
  obtain ⟨key, decoded, read⟩ := Rust.bind_eq_ok read
  obtain ⟨⟨nonce, afterNonce⟩, readNonce, read⟩ := Rust.bind_eq_ok read
  obtain ⟨⟨ctLen, afterCtLen⟩, readCtLen, read⟩ := Rust.bind_eq_ok read
  obtain ⟨⟨ciphertext, left⟩, readCt, read⟩ := Rust.bind_eq_ok read
  cases read
  obtain ⟨shortName, rfl⟩ := append_of_readLe readLen
  obtain ⟨nameLength, rfl⟩ := append_of_take readKey
  obtain ⟨-, rfl⟩ := append_of_take readNonce
  obtain ⟨shortValue, rfl⟩ := append_of_readLe readCtLen
  obtain ⟨valueLength, rfl⟩ := append_of_take readCt
  have named : keyBytes = toUtf8 key := by
    cases text : fromUtf8 keyBytes with
    | none =>
      rw [text] at decoded
      cases decoded
    | some found =>
      rw [text] at decoded
      cases decoded
      exact eq_toUtf8_of_fromUtf8 text
  subst named nameLength valueLength
  refine ⟨leBytes 2 (toUtf8 key).length ++ toUtf8 key ++ nonce ++
    leBytes 4 ciphertext.length ++ ciphertext, ?_, ?_⟩
  · simp only [recordBytes]
    rw [if_neg (by omega), if_neg (by omega)]
  · simp only [List.append_assoc]

theorem recordsBytes_of_listRecords {turns : Nat} (enough : raw.length ≤ turns)
    (listed : listRecords turns raw = .ok entries) :
    recordsBytes entries = .ok raw ∧
      ∀ entry ∈ entries, entry.2.nonce.length = nonceLen := by
  induction turns generalizing raw entries with
  | zero =>
    obtain rfl := List.eq_nil_of_length_eq_zero (Nat.le_zero.mp enough)
    cases listed
    exact ⟨rfl, nofun⟩
  | succ turns ih =>
    cases raw with
    | nil =>
      cases listed
      exact ⟨rfl, nofun⟩
    | cons byte rest =>
      obtain ⟨⟨entry, left⟩, read, listed⟩ := Rust.bind_eq_ok listed
      obtain ⟨later, others, listed⟩ := Rust.bind_eq_ok listed
      cases listed
      have shorter := length_of_parseRecord read
      obtain ⟨bytes, written, whole⟩ := recordBytes_of_parseRecord read
      obtain ⟨writtenLater, nonces⟩ := ih (by omega) others
      constructor
      · simp only [recordsBytes, written, writtenLater, bind, Except.bind,
          pure, Except.pure, whole]
      · exact List.forall_mem_cons.mpr ⟨nonce_of_parseRecord read, nonces⟩

theorem listRecords_append {bytes : Bytes}
    (nonces : ∀ entry ∈ entries, entry.2.nonce.length = nonceLen)
    (written : recordsBytes entries = .ok bytes) (rest : Bytes) {turns : Nat}
    (enough : (bytes ++ rest).length ≤ turns) :
    ∃ left, listRecords turns (bytes ++ rest) =
      (listRecords left rest).map (entries ++ ·) := by
  induction entries generalizing bytes turns with
  | nil =>
    cases written
    refine ⟨turns, ?_⟩
    rw [List.nil_append]
    cases listRecords turns rest <;> rfl
  | cons entry entries ih =>
    obtain ⟨first, one, written⟩ := Rust.bind_eq_ok written
    obtain ⟨others, more, written⟩ := Rust.bind_eq_ok written
    cases written
    have parsed := parseRecord_recordBytes
      (nonces entry List.mem_cons_self) one (others ++ rest)
    have shorter := length_of_parseRecord parsed
    rw [List.append_assoc] at enough ⊢
    cases turns with
    | zero => omega
    | succ turns =>
      have fits : (others ++ rest).length ≤ turns := by omega
      obtain ⟨left, later⟩ := ih (fun other member =>
        nonces other (List.mem_cons_of_mem _ member)) more fits
      refine ⟨left, ?_⟩
      cases shape : first ++ (others ++ rest) with
      | nil => simp [shape] at shorter
      | cons byte tail =>
        rw [shape] at parsed
        simp only [listRecords, parsed, bind, Except.bind, later]
        cases listRecords left rest <;> rfl

theorem listRecords_recordsBytes {bytes : Bytes}
    (nonces : ∀ entry ∈ entries, entry.2.nonce.length = nonceLen)
    (written : recordsBytes entries = .ok bytes) :
    listRecords bytes.length bytes = .ok entries := by
  obtain ⟨left, listed⟩ := listRecords_append nonces written []
    (Nat.le_of_eq rfl)
  rw [List.append_nil] at listed
  rw [listed]
  cases left <;> simp [listRecords, Except.map]

theorem parseRecords_eq_listRecords (turns : Nat) (raw : Bytes)
    (read : Records) :
    parseRecords turns raw read = (listRecords turns raw).map fun entries =>
      entries.foldl (fun read entry => insertRecord entry.1 entry.2 read)
        read := by
  induction turns generalizing raw read with
  | zero => cases raw <;> rfl
  | succ turns ih =>
    cases raw with
    | nil => rfl
    | cons byte rest =>
      simp only [parseRecords, listRecords]
      cases one : parseRecord (byte :: rest) with
      | error reason => rfl
      | ok answer =>
        simp only [bind, Except.bind, ih]
        cases listRecords turns answer.2 <;> rfl

theorem foldl_insertRecord {read : Records}
    (ordered : (read ++ entries).Pairwise fun left right => left.1 < right.1) :
    entries.foldl (fun read entry => insertRecord entry.1 entry.2 read) read =
      read ++ entries := by
  induction entries generalizing read with
  | nil => simp
  | cons entry entries ih =>
    have below : ∀ other ∈ read, other.1 < entry.1 := fun other member =>
      (List.pairwise_append.mp ordered).2.2 other member entry
        List.mem_cons_self
    have last : insertRecord entry.1 entry.2 read = read ++ [entry] :=
      insertRecord_last below
    rw [List.foldl_cons, last, ih (by simpa using ordered)]
    simp

theorem listRecords_of_parse (parsed : parse raw = .ok (salt, records)) :
    raw = vaultVersion :: (salt ++ raw.drop (1 + saltLen)) ∧
      ∃ entries, listRecords raw.length (raw.drop (1 + saltLen)) = .ok entries ∧
        records = entries.foldl
          (fun read entry => insertRecord entry.1 entry.2 read) [] := by
  unfold parse at parsed
  split at parsed
  · cases parsed
  · split at parsed
    · cases parsed
    · rename_i version rest _
      split at parsed
      · cases parsed
      · rename_i current
        obtain rfl : version = vaultVersion := by simpa using current
        obtain ⟨read, all, parsed⟩ := Rust.bind_eq_ok parsed
        cases parsed
        rw [parseRecords_eq_listRecords] at all
        have shape : (vaultVersion :: rest).drop (1 + saltLen) =
            rest.drop saltLen := by
          rw [Nat.add_comm]
          rfl
        rw [shape]
        refine ⟨?_, ?_⟩
        · rw [List.take_append_drop]
        · cases listed : listRecords (vaultVersion :: rest).length
              (rest.drop saltLen) with
          | error reason =>
            rw [listed] at all
            cases all
          | ok entries =>
            rw [listed] at all
            exact ⟨entries, rfl, (Except.ok.inj all).symm⟩

theorem serialise_of_recordsBytes {body : Bytes}
    (written : recordsBytes records = .ok body) :
    serialise salt records = .ok (vaultVersion :: salt ++ body) := by
  simp only [serialise, written, bind, Except.bind, pure, Except.pure]

/-- A file with its names in order is the one `persist` would write. -/
theorem serialise_of_parse (ordered : NamesInOrder raw)
    (parsed : parse raw = .ok (salt, records)) :
    serialise salt records = .ok raw := by
  obtain ⟨header, entries, listed, read⟩ := listRecords_of_parse parsed
  obtain ⟨others, alike, sorted⟩ := ordered
  obtain rfl := Except.ok.inj (listed.symm.trans alike)
  have same : records = entries := by
    rw [read]
    exact foldl_insertRecord (by simpa using sorted)
  have enough : (raw.drop (1 + saltLen)).length ≤ raw.length := by simp
  have written := (recordsBytes_of_listRecords enough listed).1
  rw [same, serialise_of_recordsBytes written, List.cons_append, ← header]

/-- A file that is read where another one is cut holds its first records. -/
theorem serialise_of_cut {cut : Bytes} {found : Bytes × Records}
    (length : salt.length = saltLen) (formed : WellFormed records)
    (written : serialise salt records = .ok raw) (begins : cut <+: raw)
    (parsed : parse cut = .ok found) :
    ∃ count, serialise salt (records.take count) = .ok cut := by
  obtain ⟨body, one, written⟩ := Rust.bind_eq_ok written
  cases written
  obtain ⟨foundSalt, foundRecords⟩ := found
  obtain ⟨header, entries, listed, -⟩ := listRecords_of_parse parsed
  have foundLength := (wellFormed_of_parse parsed).1
  obtain ⟨rest, whole⟩ := begins
  rw [header, List.cons_append, List.append_assoc] at whole
  obtain ⟨sameSalt, sameBody⟩ := List.append_inj (List.cons.inj whole).2
    (foundLength.trans length.symm)
  subst sameSalt
  have enough : (cut.drop (1 + saltLen)).length ≤ cut.length := by simp
  obtain ⟨cutWritten, nonces⟩ := recordsBytes_of_listRecords enough listed
  have all := listRecords_recordsBytes formed.nonces one
  obtain ⟨left, split⟩ := listRecords_append nonces cutWritten rest
    (Nat.le_of_eq rfl)
  rw [sameBody, all] at split
  cases later : listRecords left rest with
  | error reason =>
    rw [later] at split
    cases split
  | ok others =>
    rw [later] at split
    obtain rfl := Except.ok.inj split
    refine ⟨entries.length, ?_⟩
    rw [List.take_left, serialise_of_recordsBytes cutWritten,
      List.cons_append, ← header]

/-- `persist` refuses what does not fit the length fields. -/
def Fits (records : Records) : Prop :=
  ∀ entry ∈ records, (toUtf8 entry.1).length ≤ 65535 ∧
    entry.2.ciphertext.length < 2 ^ 32

theorem recordBytes_isOk {entry : String × SealedRecord} :
    (∃ bytes, recordBytes entry = .ok bytes) ↔
      (toUtf8 entry.1).length ≤ 65535 ∧
        entry.2.ciphertext.length < 2 ^ 32 := by
  simp only [recordBytes]
  constructor
  · rintro ⟨bytes, written⟩
    split at written
    · cases written
    · split at written
      · cases written
      · omega
  · rintro ⟨name, value⟩
    rw [if_neg (by omega), if_neg (by omega)]
    exact ⟨_, rfl⟩

theorem recordsBytes_isOk :
    (∃ bytes, recordsBytes records = .ok bytes) ↔ Fits records := by
  induction records with
  | nil => exact ⟨fun _ => nofun, fun _ => ⟨[], rfl⟩⟩
  | cons entry entries ih =>
    rw [Fits, List.forall_mem_cons, ← recordBytes_isOk]
    constructor
    · rintro ⟨bytes, written⟩
      obtain ⟨first, one, written⟩ := Rust.bind_eq_ok written
      obtain ⟨others, more, -⟩ := Rust.bind_eq_ok written
      exact ⟨⟨first, one⟩, ih.mp ⟨others, more⟩⟩
    · rintro ⟨⟨first, one⟩, rest⟩
      obtain ⟨others, more⟩ := ih.mpr rest
      exact ⟨first ++ others, by
        simp only [recordsBytes, one, more, bind, Except.bind, pure,
          Except.pure]⟩

theorem serialise_isOk :
    (∃ raw, serialise salt records = .ok raw) ↔ Fits records := by
  rw [← recordsBytes_isOk]
  constructor
  · rintro ⟨raw, written⟩
    obtain ⟨body, one, -⟩ := Rust.bind_eq_ok written
    exact ⟨body, one⟩
  · rintro ⟨body, one⟩
    exact ⟨_, serialise_of_recordsBytes one⟩

/-- What `persist` writes and what `parse` reads. -/
theorem vault_file_format (salt : Bytes) (records : Records)
    (length : salt.length = saltLen) (formed : WellFormed records) :
    ((∃ raw, serialise salt records = .ok raw) ↔ Fits records) ∧
    (∀ raw, serialise salt records = .ok raw →
      parse raw = .ok (salt, records)) ∧
    (∀ raw otherSalt others, otherSalt.length = saltLen → WellFormed others →
      serialise salt records = .ok raw →
        serialise otherSalt others = .ok raw →
          (salt, records) = (otherSalt, others)) ∧
    (∀ raw cut, serialise salt records = .ok raw → cut <+: raw →
      (∀ count, serialise salt (records.take count) ≠ .ok cut) →
        ∃ reason, parse cut = .error reason) ∧
    (∀ raw found, NamesInOrder raw → parse raw = .ok found →
      serialise found.1 found.2 = .ok raw) := by
  refine ⟨serialise_isOk, ?_, ?_, ?_, ?_⟩
  · exact fun raw written => parse_serialise length formed written
  · intro raw otherSalt others otherLength otherFormed written otherWritten
    have one := parse_serialise length formed written
    have other := parse_serialise otherLength otherFormed otherWritten
    exact Except.ok.inj (one.symm.trans other)
  · intro raw cut written begins elsewhere
    cases parsed : parse cut with
    | error reason => exact ⟨reason, rfl⟩
    | ok found =>
      obtain ⟨count, same⟩ :=
        serialise_of_cut length formed written begins parsed
      exact absurd same (elsewhere count)
  · exact fun raw found ordered parsed => serialise_of_parse ordered parsed

/-- A vault of two secrets is read back. -/
theorem two_secrets_read_back :
    let salt := List.replicate 16 7
    let records : Records :=
      [("sonarr.api_key", ⟨List.replicate 24 1, [9, 8]⟩),
        ("tracker.token", ⟨List.replicate 24 2, []⟩)]
    ∃ raw, serialise salt records = .ok raw ∧
      parse raw = .ok (salt, records) := by
  intro salt records
  have formed : WellFormed records := ⟨by decide, by decide⟩
  obtain ⟨written, read, -⟩ :=
    vault_file_format salt records (by decide) formed
  obtain ⟨raw, same⟩ := written.mpr (by unfold Fits; decide)
  exact ⟨raw, same, read raw same⟩

end Vault

end Sharerr
