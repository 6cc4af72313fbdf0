import Sharerr.Vault.Format

/-!
# Handles of one vault file

Every caller opens its own `Vault`, and a handle keeps the records it read.
A mutation takes both write locks, reads the file again, changes the records
in memory and writes the whole file.  A call holds its handle exclusively and
looks at the file only in its one read or its one locked section, so each call
is a step.
-/

namespace Sharerr

/-- The vault's primitives with the encryption of `seal`. -/
structure Sealing (Cipher : Type) extends Crypto Cipher where
  encrypt : Cipher → (nonce plaintext aad : Bytes) → Option Bytes

def trackerTokenKey : String := "tracker.token"

/-- `secret_keys::validate_value`. -/
def validateValue (key value : String) : Except String Unit :=
  let allowed := fun character : Char =>
    character.isAlphanum || character == '-' || character == '_' ||
      character == '.' || character == '~'
  if key = trackerTokenKey ∧ ¬ value.toList.all allowed then
    .error (trackerTokenKey ++
      " may only contain letters, digits, `-`, `_`, `.` and `~`: " ++
      "it becomes one segment of every announce URL, unencoded. Use " ++
      "\"Generate\" or a hex value")
  else .ok ()

namespace Vault

abbrev Salt := { bytes : Bytes // bytes.length = saltLen }

abbrev Nonce := { bytes : Bytes // bytes.length = nonceLen }

/-- What the system gives one call: the entropy it draws and how its locks,
its read and its write end. -/
structure Host where
  salt : Except String Salt
  nonce : Except String Nonce
  lock : Except VaultError Unit
  read : Except VaultError Unit
  write : Except VaultError Unit

/-- A vault as the source's types admit it. -/
structure Handle (Cipher : Type) extends Vault Cipher where
  salted : salt.length = saltLen
  formed : WellFormed records

/-- What a call leaves: its handle, the file and what it returns. -/
structure Outcome (Cipher Value : Type) where
  handle : Handle Cipher
  file : Option Bytes
  answer : Except VaultError Value

namespace Handle

variable {Cipher : Type} (sealing : Sealing Cipher)

theorem eq_of_parts {left right : Handle Cipher}
    (salt : left.salt = right.salt) (cipher : left.cipher = right.cipher)
    (records : left.records = right.records) : left = right := by
  obtain ⟨⟨leftSalt, leftCipher, leftRecords⟩, _, _⟩ := left
  obtain ⟨⟨rightSalt, rightCipher, rightRecords⟩, _, _⟩ := right
  cases salt
  cases cipher
  cases records
  rfl

theorem salted_of_openFile {master : String} {fresh : Except String Salt}
    {read : Except VaultError (Option Bytes)} {vault : Vault Cipher}
    (opened : openFile sealing.toCrypto master (fresh.map Subtype.val) read =
      .ok vault) :
    vault.salt.length = saltLen ∧ WellFormed vault.records := by
  cases read with
  | error reason => cases opened
  | ok file =>
    obtain ⟨-, ⟨-, drawn, empty⟩ | ⟨raw, -, parsed⟩⟩ :=
      opened_of_openFile opened
    · cases fresh with
      | error reason => cases drawn
      | ok salt =>
        have drawnSalt : salt.1 = vault.salt := Except.ok.inj drawn
        exact ⟨drawnSalt ▸ salt.2, empty ▸ WellFormed.nil⟩
    · exact wellFormed_of_parse parsed

/-- `Vault::open`. -/
def openAt (master : String) (host : Host) (file : Option Bytes) :
    Except VaultError (Handle Cipher) :=
  match opened : openFile sealing.toCrypto master
      (host.salt.map Subtype.val) (host.read.map fun _ => file) with
  | .error reason => .error reason
  | .ok vault =>
    .ok ⟨vault, (salted_of_openFile sealing opened).1,
      (salted_of_openFile sealing opened).2⟩

def insert (handle : Handle Cipher) (key : String) (nonce : Nonce)
    (ciphertext : Bytes) : Handle Cipher where
  toVault := { handle.toVault with
    records := insertRecord key ⟨nonce.1, ciphertext⟩ handle.records }
  salted := handle.salted
  formed := handle.formed.insertRecord nonce.2

def erase (handle : Handle Cipher) (key : String) : Handle Cipher where
  toVault := { handle.toVault with
    records := removeRecord key handle.records }
  salted := handle.salted
  formed := handle.formed.of_sublist List.filter_sublist

/-- `reload`: the records as they are on disk now. -/
def reload (handle : Handle Cipher) (read : Except VaultError (Option Bytes)) :
    Except VaultError (Handle Cipher) :=
  match read with
  | .error reason => .error reason
  | .ok none => .ok handle
  | .ok (some raw) =>
    match parsed : parse raw with
    | .error reason => .error reason
    | .ok (salt, records) =>
      if salt ≠ handle.salt then
        .error (.corrupt
          "the vault file was replaced since it was opened; reopen it")
      else
        .ok ⟨{ handle.toVault with records := records }, handle.salted,
          (wellFormed_of_parse parsed).2⟩

/-- `seal`, up to the record it fills. -/
def sealValue (handle : Handle Cipher) (nonce : Except String Nonce)
    (key value : String) : Except VaultError (Nonce × Bytes) := do
  let drawn ← nonce.mapError fun reason =>
    .kdf s!"nonce generation failed: {reason}"
  match sealing.encrypt handle.cipher drawn.1 (toUtf8 value) (toUtf8 key) with
  | none => .error (.corrupt "encryption failed")
  | some ciphertext => return (drawn, ciphertext)

/-- `persist`, up to the bytes it puts in place. -/
def persist (handle : Handle Cipher) (host : Host) :
    Except VaultError Bytes := do
  let bytes ← serialise handle.salt handle.records
  host.write
  return bytes

/-- The end of a mutation: the changed records stay in memory whether or not
they reach the file. -/
def written {Value : Type} (changed : Handle Cipher) (host : Host)
    (file : Option Bytes) (value : Value) : Outcome Cipher Value :=
  match changed.persist host with
  | .error reason => ⟨changed, file, .error reason⟩
  | .ok bytes => ⟨changed, some bytes, .ok value⟩

/-- The handle once both locks are held and the file is read again. -/
def refreshed (handle : Handle Cipher) (host : Host) (file : Option Bytes) :
    Except VaultError (Handle Cipher) := do
  host.lock
  handle.reload (host.read.map fun _ => file)

def locked {Value : Type} (handle : Handle Cipher) (host : Host)
    (file : Option Bytes) (mutate : Handle Cipher → Outcome Cipher Value) :
    Outcome Cipher Value :=
  match handle.refreshed host file with
  | .error reason => ⟨handle, file, .error reason⟩
  | .ok fresh => mutate fresh

def put (handle : Handle Cipher) (host : Host) (file : Option Bytes)
    (key value : String) : Outcome Cipher Unit :=
  match validateValue key value with
  | .error reason => ⟨handle, file, .error (.invalidValue key reason)⟩
  | .ok _ =>
    match handle.sealValue sealing host.nonce key value with
    | .error reason => ⟨handle, file, .error reason⟩
    | .ok (nonce, ciphertext) =>
      handle.locked host file fun fresh =>
        (fresh.insert key nonce ciphertext).written host file ()

def remove (handle : Handle Cipher) (host : Host) (file : Option Bytes)
    (key : String) : Outcome Cipher Bool :=
  handle.locked host file fun fresh =>
    if (recordOf fresh.records key).isSome then
      (fresh.erase key).written host file true
    else ⟨fresh, file, .ok false⟩

end Handle

inductive Mutation where
  | put (key value : String)
  | remove (key : String)
deriving DecidableEq, Repr

namespace Mutation

def key : Mutation → String
  | put key _ => key
  | remove key => key

/-- What the key is to read as afterwards. -/
def value? : Mutation → Option String
  | put _ value => some value
  | remove _ => none

end Mutation

inductive Answer where
  | opened
  | got (value : Option String)
  | stored
  | removed (existed : Bool)
deriving DecidableEq, Repr

namespace Handle

variable {Cipher : Type} (sealing : Sealing Cipher)

def mutate (handle : Handle Cipher) (host : Host) (file : Option Bytes) :
    Mutation → Outcome Cipher Answer
  | .put key value =>
    let outcome := handle.put sealing host file key value
    ⟨outcome.handle, outcome.file, outcome.answer.map fun _ => .stored⟩
  | .remove key =>
    let outcome := handle.remove host file key
    ⟨outcome.handle, outcome.file, outcome.answer.map .removed⟩

/-- The handle whose records a call tries to persist; none when it fails
earlier or finds nothing to write. -/
def attempted (handle : Handle Cipher) (host : Host) (file : Option Bytes) :
    Mutation → Option (Handle Cipher)
  | .put key value =>
    match validateValue key value,
      handle.sealValue sealing host.nonce key value,
      handle.refreshed host file with
    | .ok _, .ok (nonce, ciphertext), .ok fresh =>
      some (fresh.insert key nonce ciphertext)
    | _, _, _ => none
  | .remove key =>
    match handle.refreshed host file with
    | .ok fresh =>
      if (recordOf fresh.records key).isSome then some (fresh.erase key)
      else none
    | .error _ => none

/-- What a call does to the map of records. -/
def change (handle : Handle Cipher) (host : Host) :
    Mutation → Records → Records
  | .put key value =>
    match handle.sealValue sealing host.nonce key value with
    | .ok (nonce, ciphertext) => insertRecord key ⟨nonce.1, ciphertext⟩
    | .error _ => id
  | .remove key => removeRecord key

end Handle

namespace Handle

variable {Cipher : Type} {sealing : Sealing Cipher}

variable {handle : Handle Cipher} {file : Option Bytes} {host : Host}
  {raw : Bytes} {mutation : Mutation} {master : String}

theorem sealValue_eq_ok {drawn : Except String Nonce} {key value : String}
    {nonce : Nonce} {ciphertext : Bytes}
    (sealed : handle.sealValue sealing drawn key value =
      .ok (nonce, ciphertext)) :
    sealing.encrypt handle.cipher nonce.1 (toUtf8 value) (toUtf8 key) =
      some ciphertext := by
  obtain ⟨used, -, sealed⟩ := Rust.bind_eq_ok sealed
  split at sealed
  · cases sealed
  · cases sealed
    assumption

theorem refreshed_eq_ok {fresh : Handle Cipher}
    (done : handle.refreshed host file = .ok fresh) :
    fresh.salt = handle.salt ∧ fresh.cipher = handle.cipher ∧
      ((file = none ∧ fresh = handle) ∨
        ∃ raw, file = some raw ∧
          parse raw = .ok (handle.salt, fresh.records)) := by
  obtain ⟨_, -, done⟩ := Rust.bind_eq_ok done
  cases readable : host.read with
  | error reason =>
    rw [readable] at done
    cases done
  | ok _ =>
    rw [readable] at done
    cases file with
    | none =>
      cases done
      exact ⟨rfl, rfl, .inl ⟨rfl, rfl⟩⟩
    | some raw =>
      simp only [Except.map, reload] at done
      split at done
      · cases done
      · rename_i salt records parsed
        split at done
        · cases done
        · rename_i same
          cases done
          have salts : salt = handle.salt := not_not.mp same
          subst salts
          exact ⟨rfl, rfl, .inr ⟨raw, rfl, parsed⟩⟩

theorem reload_unreadable {reason : VaultError}
    (unreadable : parse raw = .error reason) (handle : Handle Cipher) :
    handle.reload (.ok (some raw)) = .error reason := by
  simp only [reload]
  split
  · rename_i again
    rw [unreadable] at again
    cases again
    rfl
  · rename_i again
    rw [unreadable] at again
    cases again

theorem reload_replaced {salt : Bytes} {records : Records}
    (parsed : parse raw = .ok (salt, records)) (other : salt ≠ handle.salt) :
    handle.reload (.ok (some raw)) = .error (.corrupt
      "the vault file was replaced since it was opened; reopen it") := by
  simp only [reload]
  split
  · rename_i again
    rw [parsed] at again
    cases again
  · rename_i again
    rw [parsed] at again
    cases again
    rw [if_pos other]

theorem reload_stored {records : Records}
    (parsed : parse raw = .ok (handle.salt, records)) :
    ∃ fresh, handle.reload (.ok (some raw)) = .ok fresh ∧
      fresh.salt = handle.salt ∧ fresh.cipher = handle.cipher ∧
      fresh.records = records := by
  simp only [reload]
  split
  · rename_i again
    rw [parsed] at again
    cases again
  · rename_i again
    rw [parsed] at again
    cases again
    rw [if_neg (not_not.mpr rfl)]
    exact ⟨_, rfl, rfl, rfl, rfl⟩

theorem attempted_eq_some {changed : Handle Cipher}
    (reached : handle.attempted sealing host file mutation = some changed) :
    ∃ fresh, handle.refreshed host file = .ok fresh ∧
      changed.salt = fresh.salt ∧ changed.cipher = fresh.cipher ∧
      changed.records =
        handle.change sealing host mutation fresh.records := by
  cases mutation with
  | put key value =>
    simp only [attempted] at reached
    split at reached
    · rename_i nonce ciphertext fresh _ sealed refreshed
      cases reached
      refine ⟨fresh, refreshed, rfl, rfl, ?_⟩
      simp [change, sealed, insert]
    · cases reached
  | remove key =>
    simp only [attempted] at reached
    split at reached
    · rename_i fresh refreshed
      split at reached
      · cases reached
        exact ⟨fresh, refreshed, rfl, rfl, rfl⟩
      · cases reached
    · cases reached

theorem mutate_of_attempted {changed : Handle Cipher}
    (reached : handle.attempted sealing host file mutation = some changed) :
    ∃ answer : Answer, handle.mutate sealing host file mutation =
      changed.written host file answer := by
  cases mutation with
  | put key value =>
    refine ⟨.stored, ?_⟩
    simp only [attempted] at reached
    split at reached
    · rename_i nonce ciphertext fresh valid sealed refreshed
      cases reached
      simp only [mutate, put, valid, sealed, locked, refreshed, written]
      cases (fresh.insert key nonce ciphertext).persist host <;> rfl
    · cases reached
  | remove key =>
    refine ⟨.removed true, ?_⟩
    simp only [attempted] at reached
    split at reached
    · rename_i fresh refreshed
      split at reached
      · rename_i there
        cases reached
        simp only [mutate, remove, locked, refreshed, there, if_true,
          written]
        cases (fresh.erase key).persist host <;> rfl
      · cases reached
    · cases reached

/-- A call that does not get as far as writing fails and changes nothing, or
is the removal of a key that is not there. -/
theorem mutate_of_not_attempted
    (stopped : handle.attempted sealing host file mutation = none) :
    (∃ reason, handle.mutate sealing host file mutation =
        ⟨handle, file, .error reason⟩) ∨
      ∃ fresh, handle.refreshed host file = .ok fresh ∧
        mutation.value? = none ∧
        recordOf fresh.records mutation.key = none ∧
        handle.mutate sealing host file mutation =
          ⟨fresh, file, .ok (.removed false)⟩ := by
  cases mutation with
  | put key value =>
    left
    simp only [mutate, put]
    cases valid : validateValue key value with
    | error reason => exact ⟨_, rfl⟩
    | ok _ =>
      cases sealed : handle.sealValue sealing host.nonce key value with
      | error reason => exact ⟨_, rfl⟩
      | ok made =>
        cases refreshed : handle.refreshed host file with
        | error reason =>
          simp only [locked, refreshed]
          exact ⟨_, rfl⟩
        | ok fresh =>
          simp [attempted, valid, sealed, refreshed] at stopped
  | remove key =>
    cases refreshed : handle.refreshed host file with
    | error reason =>
      left
      simp only [mutate, remove, locked, refreshed]
      exact ⟨_, rfl⟩
    | ok fresh =>
      right
      have gone : recordOf fresh.records key = none := by
        simpa [attempted, refreshed] using stopped
      refine ⟨fresh, rfl, rfl, gone, ?_⟩
      simp [mutate, remove, locked, refreshed, gone, Except.map]

theorem openAt_of_ok {vault : Vault Cipher}
    (opened : openFile sealing.toCrypto master
      (host.salt.map Subtype.val) (host.read.map fun _ => file) =
        .ok vault) :
    ∃ handle, openAt sealing master host file = .ok handle ∧
      handle.toVault = vault := by
  simp only [openAt]
  split
  · rename_i again
    rw [opened] at again
    cases again
  · rename_i again
    rw [opened] at again
    cases again
    exact ⟨_, rfl, rfl⟩

theorem openAt_of_error {reason : VaultError}
    (failed : openFile sealing.toCrypto master
      (host.salt.map Subtype.val) (host.read.map fun _ => file) =
        .error reason) :
    openAt sealing master host file = .error reason := by
  simp only [openAt]
  split
  · rename_i again
    rw [failed] at again
    cases again
    rfl
  · rename_i again
    rw [failed] at again
    cases again

theorem openAt_eq_ok (opened : openAt sealing master host file = .ok handle) :
    sealing.derive master handle.salt = .ok handle.cipher ∧
      ((file = none ∧ handle.records = []) ∨
        ∃ raw, file = some raw ∧
          parse raw = .ok (handle.salt, handle.records)) := by
  have vaultOpened : openFile sealing.toCrypto master
      (host.salt.map Subtype.val) (host.read.map fun _ => file) =
        .ok handle.toVault := by
    simp only [openAt] at opened
    split at opened
    · cases opened
    · rename_i vault read
      cases opened
      exact read
  cases readable : host.read with
  | error reason =>
    rw [readable] at vaultOpened
    cases vaultOpened
  | ok _ =>
    rw [readable] at vaultOpened
    obtain ⟨derived, ⟨absent, -, empty⟩ | stored⟩ :=
      opened_of_openFile vaultOpened
    · exact ⟨derived, .inl ⟨absent, empty⟩⟩
    · exact ⟨derived, .inr stored⟩

/-- What `persist` put in place reads back as the handle's records. -/
theorem parse_of_persist {bytes : Bytes}
    (done : handle.persist host = .ok bytes) :
    parse bytes = .ok (handle.salt, handle.records) := by
  obtain ⟨made, serialised, done⟩ := Rust.bind_eq_ok done
  obtain ⟨_, -, done⟩ := Rust.bind_eq_ok done
  cases done
  exact parse_serialise handle.salted handle.formed serialised

end Handle

namespace Handle

variable {Cipher : Type} {sealing : Sealing Cipher}

theorem file_of_error {handle : Handle Cipher} {host : Host}
    {file : Option Bytes} {mutation : Mutation} {reason : VaultError}
    (failed : (handle.mutate sealing host file mutation).answer =
      .error reason) :
    (handle.mutate sealing host file mutation).file = file := by
  cases reached : handle.attempted sealing host file mutation with
  | none =>
    rcases mutate_of_not_attempted reached with
      ⟨reason, ends⟩ | ⟨fresh, -, -, -, ends⟩
    · rw [ends]
    · rw [ends]
  | some changed =>
    obtain ⟨answer, ends⟩ := mutate_of_attempted reached
    rw [ends] at failed ⊢
    simp only [written] at failed ⊢
    cases persisted : changed.persist host with
    | error reason => rfl
    | ok bytes =>
      rw [persisted] at failed
      cases failed

/-- A call leaves the salt and the cipher of its handle alone. -/
theorem mutate_keeps {handle : Handle Cipher} {host : Host}
    {file : Option Bytes} {mutation : Mutation} :
    let after := (handle.mutate sealing host file mutation).handle
    after.salt = handle.salt ∧ after.cipher = handle.cipher := by
  cases reached : handle.attempted sealing host file mutation with
  | none =>
    rcases mutate_of_not_attempted reached with
      ⟨reason, failed⟩ | ⟨fresh, refreshed, -, -, nothing⟩
    · rw [failed]
      exact ⟨rfl, rfl⟩
    · rw [nothing]
      obtain ⟨salts, ciphers, -⟩ := refreshed_eq_ok refreshed
      exact ⟨salts, ciphers⟩
  | some changed =>
    obtain ⟨answer, ends⟩ := mutate_of_attempted reached
    obtain ⟨fresh, refreshed, changedSalt, changedCipher, -⟩ :=
      attempted_eq_some reached
    obtain ⟨salts, ciphers, -⟩ := refreshed_eq_ok refreshed
    have left : (changed.written host file answer).handle = changed := by
      simp only [written]
      cases changed.persist host <;> rfl
    simp only [ends, left]
    exact ⟨changedSalt.trans salts, changedCipher.trans ciphers⟩

end Handle

/-- The vault file and the handles opened on it. -/
structure World (Cipher : Type) where
  file : Option Bytes
  handles : Nat → Option (Handle Cipher)

inductive Op where
  | open (handle : Nat) (master : String) (host : Host)
  | get (handle : Nat) (key : String)
  | mutate (handle : Nat) (host : Host) (mutation : Mutation)

namespace World

variable {Cipher : Type} (sealing : Sealing Cipher)

def start (file : Option Bytes) : World Cipher :=
  ⟨file, fun _ => none⟩

def withHandle (world : World Cipher) (index : Nat)
    (handle : Handle Cipher) : World Cipher :=
  { world with handles := Function.update world.handles index (some handle) }

/-- One call and what it returns; nothing happens on a handle that is not
there. -/
def step (world : World Cipher) :
    Op → World Cipher × Option (Except VaultError Answer)
  | .open index master host =>
    match Handle.openAt sealing master host world.file with
    | .error reason => (world, some (.error reason))
    | .ok handle => (world.withHandle index handle, some (.ok .opened))
  | .get index key =>
    (world, (world.handles index).map fun handle =>
      (handle.get sealing.toCrypto key).map .got)
  | .mutate index host mutation =>
    match world.handles index with
    | none => (world, none)
    | some handle =>
      let outcome := handle.mutate sealing host world.file mutation
      ({ world.withHandle index outcome.handle with file := outcome.file },
        some outcome.answer)

def run (world : World Cipher) : List Op → World Cipher
  | [] => world
  | op :: ops => run (world.step sealing op).1 ops

/-- What the calls of a run return. -/
def answers (world : World Cipher) :
    List Op → List (Option (Except VaultError Answer))
  | [] => []
  | op :: ops =>
    (world.step sealing op).2 :: answers (world.step sealing op).1 ops

/-- A condition on every call of a run, in the state it meets. -/
def Throughout (Meets : World Cipher → Op → Prop) :
    World Cipher → List Op → Prop
  | _, [] => True
  | world, op :: ops =>
    Meets world op ∧ Throughout Meets (world.step sealing op).1 ops

instance decidableThroughout (Meets : World Cipher → Op → Prop)
    [∀ world op, Decidable (Meets world op)] :
    ∀ world ops, Decidable (Throughout sealing Meets world ops)
  | _, [] => inferInstanceAs (Decidable True)
  | world, op :: ops =>
    haveI := decidableThroughout Meets (world.step sealing op).1 ops
    inferInstanceAs (Decidable (Meets world op ∧
      Throughout sealing Meets (world.step sealing op).1 ops))

end World

/-- The sixteen bytes that stand for the authentication tag. -/
def tag (cipher : String) (aad : Bytes) : Bytes :=
  (toUtf8 cipher ++ aad ++ List.replicate 16 0).take 16

/-- Sealing that appends a tag of the key and the associated data and hides
nothing. -/
def tagging : Sealing String where
  derive master _ := .ok master
  encrypt cipher _ plaintext aad := some (plaintext ++ tag cipher aad)
  decrypt cipher _ ciphertext aad :=
    let length := ciphertext.length - 16
    if ciphertext.drop length = tag cipher aad then
      some (ciphertext.take length)
    else none

end Vault

end Sharerr
