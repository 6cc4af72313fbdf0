import Sharerr.Tracker.Download
import Sharerr.Vault.Alike
import Sharerr.Vault.Updates

/-!
# Seeds kept in the vault

The gossip identity and the lighthouse's decoy seed are minted on first use.
Whether it is the first use is asked of the handle, which holds what it read
when it was opened; the new seed is written over the file as it is now.
-/

namespace Sharerr

/-- The texts of the vault's errors. -/
def VaultError.display : VaultError → String
  | .noMasterKey =>
    "no master key: set SHARERR_MASTER_KEY or SHARERR_MASTER_KEY_FILE. " ++
      "sharerr will not fall back to storing credentials in plaintext"
  | .emptyMasterKey => "master key is empty"
  | .masterKeyFile path source =>
    s!"could not read master key file {path}: {source}"
  | .io path source => s!"vault I/O error at {path}: {source}"
  | .corrupt detail => s!"vault is corrupt or truncated: {detail}"
  | .unsupportedVersion found =>
    s!"unsupported vault version {found} (this build understands " ++
      s!"{vaultVersion})"
  | .wrongKey =>
    "could not decrypt the vault — the master key is wrong, or the vault " ++
      "belongs to a different deployment"
  | .kdf detail => s!"key derivation failed: {detail}"
  | .notUtf8 key => "value for " ++ key.quote ++ " is not valid UTF-8"
  | .invalidValue _ reason => reason

namespace Vault

def seedLen : Nat := 32

abbrev Seed := { bytes : Bytes // bytes.length = seedLen }

/-- `hex::decode_to_slice` into the bytes of a seed. -/
def seedFromHex (text : String) : Option Bytes :=
  if text.utf8ByteSize = 2 * seedLen then Tracker.hexPairs text.toList
  else none

theorem seedFromHex_hexEncode (seed : Seed) :
    seedFromHex (Tracker.hexEncode seed.1) = some seed.1 := by
  rw [seedFromHex, Tracker.utf8ByteSize_hexEncode, seed.2, if_pos rfl,
    Tracker.hexPairs_hexEncode]

variable {Cipher : Type}

/-- `load_or_create_seed`: the handle and the file it leaves, the seed, and
whether the call minted it. -/
def loadOrCreateSeed (sealing : Sealing Cipher) (handle : Handle Cipher)
    (host : Host) (drawn : Except String Seed) (file : Option Bytes)
    (key what : String) :
    Handle Cipher × Option Bytes × Except String (Bytes × Bool) :=
  match handle.get sealing.toCrypto key with
  | .ok (some stored) =>
    match seedFromHex stored with
    | none => (handle, file, .error s!"the stored {what} is not 32 hex bytes")
    | some bytes => (handle, file, .ok (bytes, false))
  | _ =>
    match drawn with
    | .error reason =>
      (handle, file, .error s!"generating a {what}: {reason}")
    | .ok seed =>
      let outcome :=
        handle.put sealing host file key (Tracker.hexEncode seed.1)
      match outcome.answer with
      | .error reason =>
        (outcome.handle, outcome.file,
          .error s!"storing the {what}: {reason.display}")
      | .ok _ => (outcome.handle, outcome.file, .ok (seed.1, true))

inductive SeedOp where
  | open (handle : Nat) (master : String) (host : Host)
  | load (handle : Nat) (host : Host) (drawn : Except String Seed)

namespace World

section Runs

variable (sealing : Sealing Cipher) (key what : String)

/-- Opening a handle, or asking one for the seed. -/
def seedStep (world : World Cipher) :
    SeedOp → World Cipher × Option (Except String (Bytes × Bool))
  | .open index master host =>
    ((world.step sealing (.open index master host)).1, none)
  | .load index host drawn =>
    match world.handles index with
    | none => (world, none)
    | some handle =>
      let ends :=
        loadOrCreateSeed sealing handle host drawn world.file key what
      ({ world.withHandle index ends.1 with file := ends.2.1 },
        some ends.2.2)

def seedRun (world : World Cipher) : List SeedOp → World Cipher
  | [] => world
  | op :: ops => seedRun (world.seedStep sealing key what op).1 ops

def seedAnswers (world : World Cipher) :
    List SeedOp → List (Option (Except String (Bytes × Bool)))
  | [] => []
  | op :: ops =>
    (world.seedStep sealing key what op).2 ::
      seedAnswers (world.seedStep sealing key what op).1 ops

/-- The record the file holds under the key. -/
def fileRecord (file : Option Bytes) (key : String) : Option SealedRecord :=
  (content file).toOption.bind fun records => recordOf records key

/-- The seed the file holds, as the master key reads it. -/
def storedSeed (master : String) (file : Option Bytes) : Option Bytes := do
  let raw ← file
  let (salt, records) ← (parse raw).toOption
  let cipher ← (sealing.derive master salt).toOption
  let text ← (get sealing.toCrypto ⟨salt, cipher, records⟩ key).toOption.join
  seedFromHex text

/-- The handle holds under the key what the file does. -/
def Current (handle : Handle Cipher) : Option Bytes → Prop
  | none => recordOf handle.records key = none
  | some raw =>
    ((parse raw).toOption.map fun held => (held.1, recordOf held.2 key)) =
      some (handle.salt, recordOf handle.records key)

/-- The handle has the master key's cipher, holds what the file does, and can
read it. -/
def Knows (master : String) (handle : Handle Cipher)
    (file : Option Bytes) : Prop :=
  (sealing.derive master handle.salt).toOption = some handle.cipher ∧
    Current key handle file ∧
    (recordOf handle.records key = none ∨
      ((handle.get sealing.toCrypto key).toOption.join).isSome)

/-- The call reads no seed, and its put is turned away before it writes. -/
def TurnedAway (handle : Handle Cipher) (host : Host)
    (drawn : Except String Seed) (file : Option Bytes) : Prop :=
  (handle.get sealing.toCrypto key).toOption.join = none ∧
    ∀ seed ∈ drawn.toOption,
      (handle.attempted sealing host file
        (.put key (Tracker.hexEncode seed.1))).isNone

/-- Every call is made on a handle that knows what the file holds, or does
nothing. -/
def Informed (master : String) (world : World Cipher) : SeedOp → Prop
  | .open _ _ _ => True
  | .load index host drawn => ∀ handle ∈ world.handles index,
      Knows sealing key master handle world.file ∨
        TurnedAway sealing key handle host drawn world.file

def InformedRun (master : String) : World Cipher → List SeedOp → Prop
  | _, [] => True
  | world, op :: ops =>
    Informed sealing key master world op ∧
      InformedRun master (world.seedStep sealing key what op).1 ops

instance (handle : Handle Cipher) :
    ∀ file, Decidable (Current key handle file)
  | none => inferInstanceAs (Decidable (recordOf handle.records key = none))
  | some raw => inferInstanceAs (Decidable
      (((parse raw).toOption.map fun held => (held.1, recordOf held.2 key)) =
        some (handle.salt, recordOf handle.records key)))

instance [DecidableEq Cipher] (master : String) (world : World Cipher) :
    ∀ op, Decidable (Informed sealing key master world op)
  | .open _ _ _ => inferInstanceAs (Decidable True)
  | .load index host drawn =>
    haveI : ∀ handle,
        Decidable (Knows sealing key master handle world.file) :=
      fun _ => inferInstanceAs (Decidable (_ ∧ _ ∧ (_ ∨ _)))
    haveI : ∀ handle,
        Decidable (TurnedAway sealing key handle host drawn world.file) :=
      fun _ => inferInstanceAs (Decidable (_ ∧ ∀ seed ∈ drawn.toOption, _))
    inferInstanceAs (Decidable (∀ handle ∈ world.handles index, _ ∨ _))

instance decidableInformedRun [DecidableEq Cipher] (master : String) :
    ∀ world ops,
      Decidable (InformedRun sealing key what master world ops)
  | _, [] => inferInstanceAs (Decidable True)
  | world, op :: ops =>
    haveI := decidableInformedRun master
      (world.seedStep sealing key what op).1 ops
    inferInstanceAs (Decidable (Informed sealing key master world op ∧
      InformedRun sealing key what master
        (world.seedStep sealing key what op).1 ops))

end Runs

variable {sealing : Sealing Cipher} {key what master : String}

theorem put_ends (sealing : Sealing Cipher) (handle : Handle Cipher)
    (host : Host) (file : Option Bytes) (key value : String) :
    let outcome := handle.put sealing host file key value
    (∃ reason, outcome.answer = .error reason ∧ outcome.file = file) ∨
      ∃ changed bytes,
        handle.attempted sealing host file (.put key value) = some changed ∧
        changed.persist host = .ok bytes ∧ outcome.file = some bytes ∧
        outcome.answer = .ok () := by
  have answers : (handle.mutate sealing host file (.put key value)).answer =
      (handle.put sealing host file key value).answer.map
        fun _ => Answer.stored := rfl
  have files : (handle.mutate sealing host file (.put key value)).file =
      (handle.put sealing host file key value).file := rfl
  cases reached : handle.attempted sealing host file (.put key value) with
  | none =>
    rcases Handle.mutate_of_not_attempted reached with
      ⟨reason, failed⟩ | ⟨_, -, removal, -⟩
    · left
      rw [failed] at answers files
      cases answer : (handle.put sealing host file key value).answer with
      | error because => exact ⟨because, rfl, files.symm⟩
      | ok _ =>
        rw [answer] at answers
        cases answers
    · cases removal
  | some changed =>
    obtain ⟨answer, ends⟩ := Handle.mutate_of_attempted reached
    rw [ends, Handle.written] at answers files
    cases persisted : changed.persist host with
    | error reason =>
      left
      rw [persisted] at answers files
      cases answer : (handle.put sealing host file key value).answer with
      | error because => exact ⟨because, rfl, files.symm⟩
      | ok _ =>
        rw [answer] at answers
        cases answers
    | ok bytes =>
      right
      rw [persisted] at answers files
      cases answer : (handle.put sealing host file key value).answer with
      | error because =>
        rw [answer] at answers
        cases answers
      | ok _ => exact ⟨changed, bytes, rfl, persisted, files.symm, rfl⟩

/-- What a call can do: return the seed its handle reads, fail with the file
as it was, or put a seed it drew. -/
theorem loadOrCreateSeed_ends (sealing : Sealing Cipher)
    (handle : Handle Cipher) (host : Host) (drawn : Except String Seed)
    (file : Option Bytes) (key what : String) :
    let ends := loadOrCreateSeed sealing handle host drawn file key what
    (∃ text, handle.get sealing.toCrypto key = .ok (some text) ∧
        ends.2.1 = file ∧
        ∀ bytes minted, ends.2.2 = .ok (bytes, minted) →
          seedFromHex text = some bytes) ∨
      (ends.2.1 = file ∧ ∃ reason, ends.2.2 = .error reason) ∨
      ∃ seed changed bytes, drawn = .ok seed ∧
        (handle.get sealing.toCrypto key).toOption.join = none ∧
        handle.attempted sealing host file
          (.put key (Tracker.hexEncode seed.1)) = some changed ∧
        changed.persist host = .ok bytes ∧ ends.2.1 = some bytes ∧
        ends.2.2 = .ok (seed.1, true) := by
  simp only [loadOrCreateSeed]
  split
  · rename_i text got
    left
    refine ⟨text, got, ?_⟩
    cases decoded : seedFromHex text with
    | none => exact ⟨rfl, fun _ _ impossible => nomatch impossible⟩
    | some found =>
      refine ⟨rfl, ?_⟩
      intro bytes minted answered
      cases answered
      rfl
  · rename_i unread
    right
    have nothing : (handle.get sealing.toCrypto key).toOption.join = none := by
      cases got : handle.get sealing.toCrypto key with
      | error reason => rfl
      | ok value =>
        cases value with
        | none => rfl
        | some text => exact absurd got (unread text)
    cases drawn with
    | error reason => exact .inl ⟨rfl, _, rfl⟩
    | ok seed =>
      rcases put_ends sealing handle host file key
          (Tracker.hexEncode seed.1) with
        ⟨reason, failed, kept⟩ |
          ⟨changed, bytes, reached, persisted, after, done⟩
      · simp only [failed]
        exact .inl ⟨kept, _, rfl⟩
      · simp only [done]
        exact .inr ⟨seed, changed, bytes, rfl, nothing, reached, persisted,
          after, rfl⟩

theorem get_eq_of_unheld {vault : Vault Cipher}
    (unheld : recordOf vault.records key = none) :
    vault.get sealing.toCrypto key = .ok none := by
  have missing : vault.record? key = none := unheld
  simp only [get, missing]

theorem eq_ok_of_toOption {Reason Value : Type}
    {answer : Except Reason Value} {value : Value}
    (some : answer.toOption = some value) : answer = .ok value := by
  cases answer with
  | error reason => cases some
  | ok found =>
    cases some
    rfl

variable {handle : Handle Cipher} {file : Option Bytes} {record : SealedRecord}
  {world : World Cipher} {seed : Bytes}

theorem Current.parse {raw : Bytes} (current : Current key handle (some raw)) :
    ∃ records, Vault.parse raw = .ok (handle.salt, records) ∧
      recordOf records key = recordOf handle.records key := by
  obtain ⟨⟨salt, records⟩, parsed, same⟩ := Option.map_eq_some_iff.mp current
  obtain ⟨salts, held⟩ := Prod.mk.inj same
  have salted : salt = handle.salt := salts
  subst salted
  exact ⟨records, eq_ok_of_toOption parsed, held⟩

theorem Knows.storedSeed {text : String}
    (knows : Knows sealing key master handle file)
    (got : handle.get sealing.toCrypto key = .ok (some text)) :
    World.storedSeed sealing key master file = seedFromHex text := by
  obtain ⟨derived, current, -⟩ := knows
  cases file with
  | none =>
    have unread : handle.get sealing.toCrypto key = .ok none :=
      get_eq_of_unheld current
    rw [got] at unread
    cases unread
  | some raw =>
    obtain ⟨records, parsed, held⟩ := Current.parse current
    have reads : get sealing.toCrypto ⟨handle.salt, handle.cipher, records⟩
        key = .ok (some text) := by
      rw [← got]
      exact get_congr rfl held
    simp [World.storedSeed, parsed, eq_ok_of_toOption derived, reads,
      Except.toOption]

theorem Knows.reads (knows : Knows sealing key master handle file)
    (held : fileRecord file key = some record) :
    ∃ text, handle.get sealing.toCrypto key = .ok (some text) := by
  obtain ⟨-, current, readable⟩ := knows
  have own : recordOf handle.records key = some record := by
    cases file with
    | none => cases held
    | some raw =>
      obtain ⟨records, parsed, same⟩ := Current.parse current
      rw [← same]
      simpa [fileRecord, content, parsed, Except.map, Except.toOption]
        using held
  rcases readable with unheld | readable
  · rw [own] at unheld
    cases unheld
  · obtain ⟨text, joined⟩ := Option.isSome_iff_exists.mp readable
    exact ⟨text, eq_ok_of_toOption (Option.join_eq_some_iff.mp joined)⟩

theorem storedSeed_of_persist (lawful : sealing.Lawful)
    {changed : Handle Cipher} {host : Host} {seed : Seed} {bytes : Bytes}
    (derived : (sealing.derive master handle.salt).toOption =
      some handle.cipher)
    (reached : handle.attempted sealing host file
      (.put key (Tracker.hexEncode seed.1)) = some changed)
    (persisted : changed.persist host = .ok bytes) :
    World.storedSeed sealing key master (some bytes) = some seed.1 := by
  obtain ⟨fresh, refreshed, salts, ciphers, -⟩ :=
    Handle.attempted_eq_some reached
  obtain ⟨freshSalt, freshCipher, -⟩ := Handle.refreshed_eq_ok refreshed
  have own := (get_of_attempted lawful reached refreshed).1
  have parsed := Handle.parse_of_persist persisted
  rw [← freshSalt, ← salts, ← freshCipher, ← ciphers] at derived
  have reads : get sealing.toCrypto
      ⟨changed.salt, changed.cipher, changed.records⟩ key =
        .ok (some (Tracker.hexEncode seed.1)) := own
  simp [World.storedSeed, parsed, eq_ok_of_toOption derived, reads,
    Except.toOption, seedFromHex_hexEncode]

theorem file_of_held {op : SeedOp}
    (held : fileRecord world.file key = some record)
    (informed : Informed sealing key master world op) :
    (world.seedStep sealing key what op).1.file = world.file := by
  cases op with
  | «open» index master host =>
    simp only [seedStep, step]
    split <;> rfl
  | load index host drawn =>
    simp only [seedStep]
    cases found : world.handles index with
    | none => rfl
    | some handle =>
      simp only
      rcases loadOrCreateSeed_ends sealing handle host drawn world.file
          key what with
        ⟨text, -, kept, -⟩ | ⟨kept, -⟩ |
          ⟨seed, changed, bytes, drew, unread, reached, -⟩
      · exact kept
      · exact kept
      · rcases informed handle found with knows | ⟨-, away⟩
        · obtain ⟨text, got⟩ := knows.reads held
          rw [got] at unread
          cases unread
        · have refused := away seed (by rw [drew]; rfl)
          rw [reached] at refused
          cases refused

theorem storedSeed_of_answer (lawful : sealing.Lawful) {op : SeedOp}
    {minted : Bool} (informed : Informed sealing key master world op)
    (answered : (world.seedStep sealing key what op).2 =
      some (.ok (seed, minted))) :
    storedSeed sealing key master
      (world.seedStep sealing key what op).1.file = some seed := by
  cases op with
  | «open» index master host => cases answered
  | load index host drawn =>
    simp only [seedStep] at answered ⊢
    cases found : world.handles index with
    | none =>
      rw [found] at answered
      cases answered
    | some handle =>
      rw [found] at answered
      have ended := Option.some.inj answered
      simp only
      rcases loadOrCreateSeed_ends sealing handle host drawn world.file
          key what with
        ⟨text, got, kept, decodes⟩ | ⟨-, reason, failed⟩ |
          ⟨drawnSeed, changed, bytes, drew, unread, reached, persisted,
            after, done⟩
      · rw [kept]
        rcases informed handle found with knows | ⟨unread, -⟩
        · rw [knows.storedSeed got]
          exact decodes seed minted ended
        · rw [got] at unread
          cases unread
      · rw [failed] at ended
        cases ended
      · rw [done] at ended
        cases ended
        rw [after]
        rcases informed handle found with ⟨derived, -⟩ | ⟨-, away⟩
        · exact storedSeed_of_persist lawful derived reached persisted
        · have refused := away drawnSeed (by rw [drew]; rfl)
          rw [reached] at refused
          cases refused

theorem held_of_storedSeed
    (stored : storedSeed sealing key master file = some seed) :
    ∃ record, fileRecord file key = some record := by
  simp only [storedSeed, bind, Option.bind_eq_some_iff] at stored
  obtain ⟨raw, rfl, ⟨salt, records⟩, parsed, cipher, -, text, got, -⟩ := stored
  have read := eq_ok_of_toOption (Option.join_eq_some_iff.mp got)
  cases held : recordOf records key with
  | none =>
    have unread : get sealing.toCrypto ⟨salt, cipher, records⟩ key =
        .ok none := get_eq_of_unheld held
    rw [unread] at read
    cases read
  | some record =>
    refine ⟨record, ?_⟩
    simp [fileRecord, content, eq_ok_of_toOption parsed, Except.map,
      Except.toOption, held]

theorem seedRun_append (world : World Cipher) (before after : List SeedOp) :
    world.seedRun sealing key what (before ++ after) =
      (world.seedRun sealing key what before).seedRun sealing key what
        after := by
  induction before generalizing world with
  | nil => rfl
  | cons op ops ih => exact ih _

theorem InformedRun.split {before after : List SeedOp}
    (informed : InformedRun sealing key what master world (before ++ after)) :
    InformedRun sealing key what master world before ∧
      InformedRun sealing key what master
        (world.seedRun sealing key what before) after := by
  induction before generalizing world with
  | nil => exact ⟨trivial, informed⟩
  | cons op ops ih =>
    obtain ⟨first, rest⟩ := informed
    obtain ⟨left, right⟩ := ih rest
    exact ⟨⟨first, left⟩, right⟩

theorem file_of_held_run {ops : List SeedOp}
    (held : fileRecord world.file key = some record)
    (informed : InformedRun sealing key what master world ops) :
    (world.seedRun sealing key what ops).file = world.file := by
  induction ops generalizing world with
  | nil => rfl
  | cons op ops ih =>
    obtain ⟨first, rest⟩ := informed
    have kept : (world.seedStep sealing key what op).1.file = world.file :=
      file_of_held held first
    rw [seedRun, ih (kept ▸ held) rest, kept]

/-- A seed returned anywhere in a run is the one in the file at its end. -/
theorem storedSeed_of_answered (lawful : sealing.Lawful) {ops : List SeedOp}
    {minted : Bool} (informed : InformedRun sealing key what master world ops)
    (answered : some (.ok (seed, minted)) ∈
      world.seedAnswers sealing key what ops) :
    storedSeed sealing key master
      (world.seedRun sealing key what ops).file = some seed := by
  induction ops generalizing world with
  | nil => cases answered
  | cons op ops ih =>
    obtain ⟨first, rest⟩ := informed
    rcases List.mem_cons.mp answered with now | later
    · have stored := storedSeed_of_answer lawful first now.symm
      obtain ⟨record, held⟩ := held_of_storedSeed stored
      rw [seedRun, file_of_held_run held rest, stored]
    · exact ih rest later

/-- Where every call is made on a handle that knows what the file holds, all
calls return one seed, it is in the file from the first of them on, and no
record stored under the key is ever replaced. -/
theorem one_seed (lawful : sealing.Lawful) {file : Option Bytes}
    (before after : List SeedOp)
    (informed : InformedRun sealing key what master (World.start file)
      (before ++ after)) :
    let run := (World.start file).seedRun sealing key what
    (∀ seed minted other mintedToo,
      some (.ok (seed, minted)) ∈
        (World.start file).seedAnswers sealing key what (before ++ after) →
      some (.ok (other, mintedToo)) ∈
        (World.start file).seedAnswers sealing key what (before ++ after) →
      seed = other) ∧
    (∀ seed minted,
      some (.ok (seed, minted)) ∈
        (World.start file).seedAnswers sealing key what before →
      storedSeed sealing key master (run (before ++ after)).file =
        some seed) ∧
    ∀ record, fileRecord (run before).file key = some record →
      fileRecord (run (before ++ after)).file key = some record := by
  obtain ⟨early, late⟩ := informed.split
  refine ⟨?_, ?_, ?_⟩
  · intro seed minted other mintedToo first second
    have one := storedSeed_of_answered lawful informed first
    have two := storedSeed_of_answered lawful informed second
    rw [one] at two
    exact Option.some.inj two
  · intro seed minted answered
    have stored := storedSeed_of_answered lawful early answered
    obtain ⟨record, held⟩ := held_of_storedSeed stored
    simp only [seedRun_append]
    rw [file_of_held_run held late, stored]
  · intro record held
    simp only [seedRun_append]
    rw [file_of_held_run held late]
    exact held

/-! A vault with one secret in it and no identity yet. -/

def configuredFile : Option Bytes :=
  (serialise (List.replicate saltLen 1)
    [("sonarr.api_key", ⟨List.replicate nonceLen 0,
      toUtf8 "abc" ++ tag "master" (toUtf8 "sonarr.api_key")⟩)]).toOption

def drawnSeed (byte : UInt8) : Seed :=
  ⟨List.replicate seedLen byte, List.length_replicate⟩

/-- The second handle is opened once the first has stored its seed. -/
def oneAfterAnother : List SeedOp :=
  [.open 0 "master" (goodHost 2 0), .load 0 (goodHost 0 1) (.ok (drawnSeed 7)),
    .open 1 "master" (goodHost 2 0), .load 1 (goodHost 0 2) (.ok (drawnSeed 8))]

theorem second_handle_loads :
    storedSeed tagging "identity.signing_key" "master"
        ((World.start configuredFile).seedRun tagging "identity.signing_key"
          "identity key" oneAfterAnother).file = some (drawnSeed 7).1 :=
  (one_seed tagging_lawful oneAfterAnother [] (by decide +kernel)).2.1
    (drawnSeed 7).1 true (by decide +kernel)

/-- Both handles are opened first. -/
def bothAtOnce : List SeedOp :=
  [.open 0 "master" (goodHost 2 0), .open 1 "master" (goodHost 2 0),
    .load 0 (goodHost 0 1) (.ok (drawnSeed 7)),
    .load 1 (goodHost 0 2) (.ok (drawnSeed 8))]

/-- Each call mints a seed and returns it; the file keeps the second. -/
theorem two_identities :
    ¬ ∀ seed minted other mintedToo,
      some (.ok (seed, minted)) ∈
        (World.start configuredFile).seedAnswers tagging
          "identity.signing_key" "identity key" bothAtOnce →
      some (.ok (other, mintedToo)) ∈
        (World.start configuredFile).seedAnswers tagging
          "identity.signing_key" "identity key" bothAtOnce →
      seed = other := by
  intro same
  have equal := same (drawnSeed 7).1 true (drawnSeed 8).1 true
    (by decide +kernel) (by decide +kernel)
  revert equal
  decide

end World

end Vault

end Sharerr
