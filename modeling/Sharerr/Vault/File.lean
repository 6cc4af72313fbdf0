import Mathlib.Data.List.Basic
import Sharerr.Rust.Basic

/-!
# The encrypted credential vault

The file is a version byte, a salt, and records that each name their key in
the clear and seal their value.  Argon2 and XChaCha20-Poly1305 belong to other
crates and are parameters here; the key of a record is the associated data of
its value, as in the file format.
-/

namespace Sharerr

abbrev Bytes := List UInt8

inductive VaultError where
  | noMasterKey
  | emptyMasterKey
  | masterKeyFile (path source : String)
  | io (path source : String)
  | corrupt (detail : String)
  | unsupportedVersion (found : UInt8)
  | wrongKey
  | kdf (detail : String)
  | notUtf8 (key : String)
  | invalidValue (key reason : String)
deriving DecidableEq, Repr

/-- A sealed record as held in memory. -/
structure SealedRecord where
  nonce : Bytes
  ciphertext : Bytes
deriving DecidableEq, Repr

/-- The primitives the vault is built on: key derivation and authenticated
encryption. -/
structure Crypto (Cipher : Type) where
  derive : (master : String) → (salt : Bytes) → Except String Cipher
  decrypt : Cipher → (nonce ciphertext aad : Bytes) → Option Bytes

def vaultVersion : UInt8 := 1

def saltLen : Nat := 16

def nonceLen : Nat := 24

namespace Vault

/-- `take`: the next `len` bytes and what follows them. -/
def take (raw : Bytes) (len : Nat) : Except VaultError (Bytes × Bytes) :=
  if raw.length < len then .error (.corrupt "record truncated")
  else .ok (raw.take len, raw.drop len)

/-- `from_le_bytes`. -/
def littleEndian : Bytes → Nat
  | [] => 0
  | byte :: rest => byte.toNat + 256 * littleEndian rest

/-- `read_u16` and `read_u32`, by their width in bytes. -/
def readLe (raw : Bytes) (width : Nat) : Except VaultError (Nat × Bytes) := do
  let (bytes, rest) ← take raw width
  return (littleEndian bytes, rest)

def fromUtf8 (bytes : Bytes) : Option String :=
  String.fromUTF8? ⟨bytes.toArray⟩

def toUtf8 (text : String) : Bytes :=
  text.toUTF8.data.toList

/-- `BTreeMap::insert`: records stay in the order of their keys. -/
def insertRecord (key : String) (record : SealedRecord) :
    List (String × SealedRecord) → List (String × SealedRecord)
  | [] => [(key, record)]
  | (other, stored) :: rest =>
    if key = other then (key, record) :: rest
    else if key < other then (key, record) :: (other, stored) :: rest
    else (other, stored) :: insertRecord key record rest

/-- One turn of the loop in `parse`. -/
def parseRecord (raw : Bytes) :
    Except VaultError ((String × SealedRecord) × Bytes) := do
  let (keyLen, raw) ← readLe raw 2
  let (keyBytes, raw) ← take raw keyLen
  let key ← (fromUtf8 keyBytes).elim
    (.error (.corrupt "record key is not UTF-8")) .ok
  let (nonce, raw) ← take raw nonceLen
  let (ctLen, raw) ← readLe raw 4
  let (ciphertext, raw) ← take raw ctLen
  return ((key, ⟨nonce, ciphertext⟩), raw)

/-- The loop of `parse`.  A record takes at least thirty bytes, so the length
of the file is more turns than it can need. -/
def parseRecords : Nat → Bytes → List (String × SealedRecord) →
    Except VaultError (List (String × SealedRecord))
  | _, [], records => .ok records
  | 0, _ :: _, records => .ok records
  | turns + 1, byte :: rest, records => do
      let ((key, record), rest) ← parseRecord (byte :: rest)
      parseRecords turns rest (insertRecord key record records)

variable {raw rest : Bytes}

theorem length_of_take {taken : Bytes} {len : Nat}
    (read : take raw len = .ok (taken, rest)) :
    rest.length + len = raw.length := by
  simp only [take] at read
  split at read
  · cases read
  · cases read
    simp only [List.length_drop]
    omega

theorem length_of_readLe {width value : Nat}
    (read : readLe raw width = .ok (value, rest)) :
    rest.length + width = raw.length := by
  obtain ⟨⟨bytes, left⟩, taken, finished⟩ := Rust.bind_eq_ok read
  cases finished
  exact length_of_take taken

theorem length_of_parseRecord {entry : String × SealedRecord}
    (read : parseRecord raw = .ok (entry, rest)) :
    rest.length < raw.length := by
  obtain ⟨⟨keyLen, afterLen⟩, readLen, read⟩ := Rust.bind_eq_ok read
  obtain ⟨⟨keyBytes, afterKey⟩, readKey, read⟩ := Rust.bind_eq_ok read
  obtain ⟨key, -, read⟩ := Rust.bind_eq_ok read
  obtain ⟨⟨nonce, afterNonce⟩, readNonce, read⟩ := Rust.bind_eq_ok read
  obtain ⟨⟨ctLen, afterCtLen⟩, readCtLen, read⟩ := Rust.bind_eq_ok read
  obtain ⟨⟨ciphertext, left⟩, readCt, read⟩ := Rust.bind_eq_ok read
  cases read
  have := length_of_readLe readLen
  have := length_of_take readKey
  have := length_of_take readNonce
  have := length_of_readLe readCtLen
  have := length_of_take readCt
  omega

/-- The turns never run out: any number that covers the bytes gives the same
records. -/
theorem parseRecords_of_length_le {first second : Nat}
    {records : List (String × SealedRecord)} (enoughFirst : raw.length ≤ first)
    (enoughSecond : raw.length ≤ second) :
    parseRecords first raw records = parseRecords second raw records := by
  induction first generalizing second raw records with
  | zero =>
    have empty : raw = [] :=
      List.eq_nil_of_length_eq_zero (Nat.le_zero.mp enoughFirst)
    subst empty
    cases second <;> rfl
  | succ first ih =>
    cases raw with
    | nil => cases second <;> rfl
    | cons byte bytes =>
      cases second with
      | zero => cases enoughSecond
      | succ second =>
        simp only [parseRecords]
        cases read : parseRecord (byte :: bytes) with
        | error reason => rfl
        | ok answer =>
          obtain ⟨⟨key, record⟩, rest⟩ := answer
          have shorter := length_of_parseRecord read
          have fitsFirst : rest.length ≤ first := by omega
          have fitsSecond : rest.length ≤ second := by omega
          exact ih fitsFirst fitsSecond

/-- Version, salt and records, with nothing left over. -/
def parse (raw : Bytes) :
    Except VaultError (Bytes × List (String × SealedRecord)) :=
  if raw.length < 1 + saltLen then
    .error (.corrupt "file shorter than header")
  else
    match raw with
    | [] => .error (.corrupt "file shorter than header")
    | version :: rest =>
      if version ≠ vaultVersion then
        .error (.unsupportedVersion version)
      else do
        let records ← parseRecords raw.length (rest.drop saltLen) []
        return (rest.take saltLen, records)

end Vault

/-- An opened vault. -/
structure Vault (Cipher : Type) where
  salt : Bytes
  cipher : Cipher
  records : List (String × SealedRecord)

namespace Vault

variable {Cipher : Type} (crypto : Crypto Cipher)

def record? (vault : Vault Cipher) (key : String) : Option SealedRecord :=
  (vault.records.find? fun entry => entry.1 = key).map (·.2)

/-- Decrypt a single value. -/
def get (vault : Vault Cipher) (key : String) :
    Except VaultError (Option String) :=
  match vault.record? key with
  | none => .ok none
  | some record =>
    match crypto.decrypt vault.cipher record.nonce record.ciphertext
        (toUtf8 key) with
    | none => .error .wrongKey
    | some plaintext =>
      match fromUtf8 plaintext with
      | none => .error (.notUtf8 key)
      | some text => .ok (some text)

/-- `Vault::open` over what reading the file gave: an error, no file, or its
bytes.  `freshSalt` is the salt drawn for a vault that does not exist yet.
Only the first record is decrypted to check the master key. -/
def openFile (master : String) (freshSalt : Except String Bytes)
    (file : Except VaultError (Option Bytes)) :
    Except VaultError (Vault Cipher) := do
  match ← file with
  | none =>
    let salt ← freshSalt.mapError fun reason =>
      .kdf s!"salt generation failed: {reason}"
    let cipher ← (crypto.derive master salt).mapError .kdf
    return ⟨salt, cipher, []⟩
  | some raw =>
    let (salt, records) ← parse raw
    let cipher ← (crypto.derive master salt).mapError .kdf
    let vault : Vault Cipher := ⟨salt, cipher, records⟩
    match records with
    | [] => return vault
    | (key, _) :: _ =>
      let _ ← vault.get crypto key
      return vault

variable {crypto}

variable {vault : Vault Cipher}

/-- An opened vault has the salt and the records of its file, or a fresh salt
and none, and the cipher its master key gives for the salt. -/
theorem opened_of_openFile {master : String} {freshSalt : Except String Bytes}
    {file : Option Bytes}
    (opened : openFile crypto master freshSalt (.ok file) = .ok vault) :
    crypto.derive master vault.salt = .ok vault.cipher ∧
      ((file = none ∧ freshSalt = .ok vault.salt ∧ vault.records = []) ∨
        ∃ raw, file = some raw ∧
          parse raw = .ok (vault.salt, vault.records)) := by
  cases file with
  | none =>
    cases freshSalt with
    | error reason => cases opened
    | ok salt =>
      cases derived : crypto.derive master salt with
      | error reason =>
        simp [openFile, bind, Except.bind, Except.mapError,
          derived] at opened
      | ok cipher =>
        simp [openFile, bind, Except.bind, Except.mapError, derived,
          pure, Except.pure] at opened
        subst opened
        exact ⟨derived, .inl ⟨rfl, rfl, rfl⟩⟩
  | some raw =>
    cases parsed : parse raw with
    | error reason =>
      simp [openFile, bind, Except.bind, parsed] at opened
    | ok header =>
      obtain ⟨salt, records⟩ := header
      cases derived : crypto.derive master salt with
      | error reason =>
        simp [openFile, bind, Except.bind, Except.mapError, parsed,
          derived] at opened
      | ok cipher =>
        cases records with
        | nil =>
          simp [openFile, bind, Except.bind, Except.mapError,
            parsed, derived, pure, Except.pure] at opened
          subst opened
          exact ⟨derived, .inr ⟨raw, rfl, parsed⟩⟩
        | cons entry rest =>
          simp only [openFile, bind, Except.bind, Except.mapError,
            parsed, derived, pure, Except.pure] at opened
          split at opened
          · cases opened
          · cases opened
            exact ⟨derived, .inr ⟨raw, rfl, parsed⟩⟩

theorem openFile_eq_ok {master : String} {freshSalt : Except String Bytes}
    {file : Option Bytes}
    (opened : openFile crypto master freshSalt (.ok file) = .ok vault) :
    (file = none ∧ vault.records = []) ∨
      ∃ raw salt, file = some raw ∧ parse raw = .ok (salt, vault.records) := by
  obtain ⟨-, ⟨absent, -, empty⟩ | ⟨raw, present, parsed⟩⟩ :=
    opened_of_openFile opened
  · exact .inl ⟨absent, empty⟩
  · exact .inr ⟨raw, vault.salt, present, parsed⟩

theorem get_eq_none_of_absent {key : String}
    (absent : key ∉ vault.records.map (·.1)) :
    vault.get crypto key = .ok none := by
  have missing : vault.record? key = none := by
    simp only [record?, Option.map_eq_none_iff, List.find?_eq_none,
      decide_eq_true_eq]
    intro entry member named
    exact absent (List.mem_map.mpr ⟨entry, member, named⟩)
  simp [get, missing]

end Vault

end Sharerr
