import Sharerr.Process.Safety
import Sharerr.Settings.Slots

/-!
# What a rejected save leaves behind

A save touches the vault before `sharerr.toml`, and a rotation or a clearing
touches it twice.  A step that fails does not undo the ones before it.  A
rejected save leaves the vault alone exactly when none of its writes that went
through changed a record.
-/

namespace Sharerr

namespace Settings

open Process (Prog Performed Safe)
open Tracker (trackerToken trackerTokenPrevious)
open Vault.World (fileRecord)

variable {Cipher Rest : Type}

section Claims

variable (sealing : Sealing Cipher) (master : String)

/-- The record that a put leaves, for the nonce its host draws. -/
def sealedAs (file : Option Bytes) (host : Vault.Host) (key value : String) :
    Option SealedRecord := do
  let raw ← file
  let (salt, _) ← (Vault.parse raw).toOption
  let cipher ← (sealing.derive master salt).toOption
  let nonce ← host.nonce.toOption
  let ciphertext ← sealing.encrypt cipher nonce.1 (Vault.toUtf8 value)
    (Vault.toUtf8 key)
  return ⟨nonce.1, ciphertext⟩

/-- Not a vault write that went through and changed a record: what was removed
was not there, and what was put had been put before. -/
def Idle (start : World Cipher Rest) : Event Rest → Prop
  | ⟨_, .vault (.mutate (.put key value)), (host, .ok _)⟩ =>
    ∃ record ∈ sealedAs sealing master start.vault.file host key value,
      fileRecord start.vault.file key = some record
  | ⟨_, .vault (.mutate (.remove key)), (_, .ok _)⟩ =>
    fileRecord start.vault.file key = none
  | _ => True

instance (start : World Cipher Rest) :
    ∀ event : Event Rest, Decidable (Idle sealing master start event)
  | ⟨_, .vault (.mutate (.put key value)), (host, .ok _)⟩ =>
    inferInstanceAs (Decidable (∃ record ∈ sealedAs sealing master
      start.vault.file host key value,
        fileRecord start.vault.file key = some record))
  | ⟨_, .vault (.mutate (.remove key)), (_, .ok _)⟩ =>
    inferInstanceAs (Decidable (fileRecord start.vault.file key = none))
  | ⟨_, .vault (.mutate (.put _ _)), (_, .error _)⟩
  | ⟨_, .vault (.mutate (.remove _)), (_, .error _)⟩
  | ⟨_, .vault .open, _⟩ | ⟨_, .vault (.get _), _⟩
  | ⟨_, .lockConfigWrite, _⟩ | ⟨_, .unlockConfigWrite, _⟩
  | ⟨_, .readConfigError, _⟩ | ⟨_, .readConfig, _⟩ | ⟨_, .readFile, _⟩
  | ⟨_, .writeFile _ _, _⟩ | ⟨_, .writeConfig _, _⟩
  | ⟨_, .clearConfigError, _⟩ | ⟨_, .invalidate _, _⟩
  | ⟨_, .resetLegacyTokenStatus, _⟩ | ⟨_, .randomHex, _⟩
  | ⟨_, .openStore, _⟩ | ⟨_, .createPeer _ _ _, _⟩
  | ⟨_, .setPeerLimits _ _ _, _⟩ | ⟨_, .setPeerGossipUrl _ _, _⟩
  | ⟨_, .recordPeerEndpoint _ _, _⟩ => inferInstanceAs (Decidable True)

/-- An opened vault and a store, if only to be asked for the tokens. -/
def reachable : Tracker.Surroundings := ⟨.error "", .ok (), .ok ()⟩

/-- The tokens `authenticate_token` is given; the salt is what a vault that
has no file would draw. -/
def acceptedTokens (world : World Cipher Rest) (salt : Bytes) :
    Except VaultError Tracker.TrackerTokens :=
  (Tracker.Instance.trackerTokens
    ⟨sealing.toCrypto, master, .ok salt, world.vault.file⟩ world.server
    reachable).1

/-- The same instance with no token cached. -/
def uncached (world : World Cipher Rest) : World Cipher Rest :=
  { world with server := { world.server with trackerTokens := none } }

/-- What is cached is what the vault holds. -/
def CacheCurrent (world : World Cipher Rest) : Prop :=
  ∀ salt, acceptedTokens sealing master world salt =
    acceptedTokens sealing master (uncached world) salt

/-- The vault holds the same records, and the same tokens are accepted. -/
structure Unharmed (before after : World Cipher Rest) : Prop where
  records : Vault.content after.vault.file = Vault.content before.vault.file
  tokens : ∀ salt, acceptedTokens sealing master after salt =
    acceptedTokens sealing master before salt

end Claims

/-- The file as it parses. -/
def parsedFile (file : Option Bytes) :
    Option (Except VaultError (Bytes × Vault.Records)) :=
  file.map Vault.parse

def Dropped (past : List (Event Rest)) : Prop :=
  ∃ reason, (⟨0, .invalidate reason, ()⟩ : Event Rest) ∈ past

section Tracking

variable (sealing : Sealing Cipher) (master : String)

/-- How far a submission has come that has written under some keys. -/
structure Tracked (start : World Cipher Rest) (touched : List String)
    (moment : Moment Cipher Rest) : Prop where
  untouched : ∀ key, key ∉ touched →
    fileRecord moment.world.vault.file key =
      fileRecord start.vault.file key
  idle : (∀ event ∈ moment.past, Idle sealing master start event) →
    parsedFile moment.world.vault.file = parsedFile start.vault.file
  altered : ∀ event ∈ moment.past, ¬ Idle sealing master start event →
    ∃ key ∈ touched, fileRecord moment.world.vault.file key ≠
      fileRecord start.vault.file key
  salts : ∀ salt records,
    parsedFile start.vault.file = some (.ok (salt, records)) →
      ∃ later, parsedFile moment.world.vault.file = some (.ok (salt, later))
  dropped : Dropped moment.past → moment.world.server.trackerTokens = none
  cached : ¬ Dropped moment.past →
    moment.world.server.trackerTokens = start.server.trackerTokens

variable {sealing master} {world after : World Cipher Rest}
  {handle : Vault.Handle Cipher} {host : Vault.Host}
  {mutation : Vault.Mutation}

theorem openFile_congr {left right : Option Bytes} {salt : Except String Bytes}
    (same : parsedFile left = parsedFile right) :
    Vault.openFile sealing.toCrypto master salt (.ok left) =
      Vault.openFile sealing.toCrypto master salt (.ok right) := by
  cases left with
  | none =>
    cases right with
    | none => rfl
    | some raw => cases same
  | some left =>
    cases right with
    | none => cases same
    | some right =>
      have parsed : Vault.parse left = Vault.parse right :=
        Option.some.inj same
      simp only [Vault.openFile, bind, Except.bind, parsed]

theorem acceptedTokens_congr
    (files : parsedFile after.vault.file = parsedFile world.vault.file)
    (caches : after.server.trackerTokens = world.server.trackerTokens)
    (salt : Bytes) :
    acceptedTokens sealing master after salt =
      acceptedTokens sealing master world salt := by
  simp only [acceptedTokens, Tracker.Instance.trackerTokens_eq,
    Tracker.Instance.openVault, Tracker.Instance.vault,
    openFile_congr files, caches, reachable, bind, Except.bind]
  cases world.server.trackerTokens with
  | some cached => rfl
  | none =>
    cases Vault.openFile sealing.toCrypto master (.ok salt)
      (.ok world.vault.file) <;> rfl

variable {start : World Cipher Rest} {touched : List String}
  {records : Vault.Records} {salt : Bytes} {key value : String}

/-- A rejected submission is unharmed exactly when it altered nothing and
dropped no cache that held something else. -/
theorem Tracked.unharmed_iff {moment : Moment Cipher Rest}
    (tracked : Tracked sealing master start touched moment) :
    Unharmed sealing master start moment.world ↔
      (∀ event ∈ moment.past, Idle sealing master start event) ∧
        (Dropped moment.past → CacheCurrent sealing master start) := by
  have reread : Dropped moment.past →
      (∀ event ∈ moment.past, Idle sealing master start event) → ∀ salt,
        acceptedTokens sealing master moment.world salt =
          acceptedTokens sealing master (uncached start) salt := by
    intro dropped idle salt
    have same : moment.world.server.trackerTokens =
        (uncached start).server.trackerTokens := tracked.dropped dropped
    have files : parsedFile moment.world.vault.file =
        parsedFile (uncached start).vault.file := tracked.idle idle
    exact acceptedTokens_congr files same salt
  constructor
  · intro unharmed
    have idle : ∀ event ∈ moment.past, Idle sealing master start event := by
      intro event member
      by_contra altering
      obtain ⟨key, -, different⟩ := tracked.altered event member altering
      apply different
      simp only [fileRecord, unharmed.records]
    refine ⟨idle, fun dropped salt => ?_⟩
    rw [← reread dropped idle salt, unharmed.tokens salt]
  · rintro ⟨idle, current⟩
    have files := tracked.idle idle
    constructor
    · cases before : start.vault.file with
      | none =>
        cases now : moment.world.vault.file with
        | none => rfl
        | some raw =>
          rw [before, now] at files
          cases files
      | some raw =>
        cases now : moment.world.vault.file with
        | none =>
          rw [before, now] at files
          cases files
        | some other =>
          rw [before, now] at files
          have parsed : Vault.parse other = Vault.parse raw :=
            Option.some.inj files
          simp only [Vault.content, parsed]
    · intro salt
      by_cases dropped : Dropped moment.past
      · rw [reread dropped idle salt, current dropped salt]
      · exact acceptedTokens_congr files (tracked.cached dropped) salt

theorem parsedFile_of_refreshed {fresh : Vault.Handle Cipher}
    (refreshed : handle.refreshed host world.vault.file = .ok fresh)
    (held : parsedFile world.vault.file = some (.ok (salt, records))) :
    salt = handle.salt ∧ records = fresh.records := by
  obtain ⟨-, -, ⟨absent, -⟩ | ⟨raw, present, parsed⟩⟩ :=
    Vault.Handle.refreshed_eq_ok refreshed
  · rw [absent] at held
    cases held
  · rw [present, parsedFile, Option.map_some, parsed] at held
    cases held
    exact ⟨rfl, rfl⟩

theorem salt_of_written
    (written : Written sealing master world after 0 handle host mutation)
    (held : parsedFile world.vault.file = some (.ok (salt, records))) :
    ∃ later, parsedFile after.vault.file = some (.ok (salt, later)) := by
  cases written with
  | nothing removal absent files => exact ⟨records, files ▸ held⟩
  | records fresh changed refreshed reached raw files parsed same =>
    obtain ⟨rfl, -⟩ := parsedFile_of_refreshed refreshed held
    exact ⟨changed.records, by rw [files, parsedFile, Option.map_some,
      parsed]⟩

/-- A write of the record that is there leaves the file as it parses. -/
theorem parsedFile_of_unchanged
    (opened : Opened sealing master world 0 handle)
    (written : Written sealing master world after 0 handle host mutation)
    (same : fileRecord world.vault.file mutation.key =
      leaves sealing handle host mutation) :
    parsedFile after.vault.file = parsedFile world.vault.file := by
  cases written with
  | nothing removal absent files => rw [files]
  | records fresh changed refreshed reached raw files parsed _ =>
    have before : fileRecord world.vault.file mutation.key = none ∨
        ∃ raw records, world.vault.file = some raw ∧
          Vault.parse raw = .ok (handle.salt, records) ∧
            fresh.records = records := by
      obtain ⟨-, -, ⟨absent, -⟩ | ⟨raw, present, reparsed⟩⟩ :=
        Vault.Handle.refreshed_eq_ok refreshed
      · left
        simp [absent, fileRecord, Vault.content, Except.toOption,
          Vault.recordOf]
      · exact .inr ⟨raw, fresh.records, present, reparsed, rfl⟩
    cases mutation with
    | put key value =>
      simp only [Vault.Handle.attempted] at reached
      split at reached
      · rename_i nonce ciphertext other _ sealed again
        rw [refreshed] at again
        cases again
        cases reached
        simp only [leaves, sealed, Vault.Mutation.key] at same before
        rcases before with absent | ⟨earlier, records, present, reparsed,
          rfl⟩
        · rw [absent] at same
          cases same
        · have held : Vault.recordOf fresh.records key =
              some ⟨nonce.1, ciphertext⟩ := by
            simpa [fileRecord, Vault.content, present, reparsed,
              Except.toOption, Except.map] using same
          have unchanged := Vault.insertRecord_of_present
            (Vault.wellFormed_of_parse reparsed).2.sorted held
          rw [files, present]
          simp only [parsedFile, Option.map_some, parsed, reparsed,
            Vault.Handle.insert, unchanged]
      · cases reached
    | remove key =>
      simp only [Vault.Handle.attempted, refreshed] at reached
      split at reached
      · rename_i there
        exfalso
        obtain ⟨-, -, ⟨absent, rfl⟩ | ⟨earlier, present, reparsed⟩⟩ :=
          Vault.Handle.refreshed_eq_ok refreshed
        · simp [opened.2.2 absent, Vault.recordOf] at there
        · have held : Vault.recordOf fresh.records key = none := by
            simpa [leaves, Vault.Mutation.key, fileRecord, Vault.content,
              present, reparsed, Except.toOption, Except.map] using same
          rw [held] at there
          cases there
      · cases reached

theorem drawn_of_sealValue {drawn : Except String Vault.Nonce}
    {nonce : Vault.Nonce} {ciphertext : Bytes}
    (sealed : handle.sealValue sealing drawn key value =
      .ok (nonce, ciphertext)) : drawn = .ok nonce := by
  cases drawn with
  | error reason => cases sealed
  | ok used =>
    obtain ⟨_, drew, sealed⟩ := Rust.bind_eq_ok sealed
    cases drew
    split at sealed
    · cases sealed
    · cases sealed
      rfl

/-- Whether a put went for nothing is told by the record it left. -/
theorem idle_put_iff {past : List (Event Rest)} {answer : Vault.Answer}
    (tracked : Tracked sealing master start touched ⟨world, past⟩)
    (opened : Opened sealing master world 0 handle)
    (written : Written sealing master world after 0 handle host
      (.put key value)) :
    Idle sealing master start ⟨0, .vault (.mutate (.put key value)),
        (host, .ok answer)⟩ ↔
      fileRecord start.vault.file key =
        leaves sealing handle host (.put key value) := by
  obtain ⟨-, -, absent⟩ := records_of_written opened written
  cases left : leaves sealing handle host (.put key value) with
  | none => cases absent left
  | some record =>
    simp only [Idle]
    cases held : parsedFile start.vault.file with
    | none =>
      have nothing : start.vault.file = none := by
        simpa [parsedFile] using held
      simp [sealedAs, nothing, fileRecord, Vault.content,
        Except.toOption, Vault.recordOf]
    | some parsed =>
      obtain ⟨raw, present, reads⟩ := Option.map_eq_some_iff.mp held
      cases parsed with
      | error reason =>
        simp [sealedAs, present, reads, fileRecord, Vault.content,
          Except.toOption, Except.map]
      | ok header =>
        obtain ⟨salt, records⟩ := header
        obtain ⟨later, now⟩ := tracked.salts salt records held
        have same : salt = handle.salt := by
          cases written with
          | nothing removal => cases removal
          | records fresh _ refreshed =>
            exact (parsedFile_of_refreshed refreshed now).1
        have sealed : sealedAs sealing master start.vault.file host key
            value = some record := by
          simp only [leaves] at left
          split at left
          · rename_i nonce ciphertext sealed
            cases left
            subst same
            simp [sealedAs, present, reads, opened.2.1,
              drawn_of_sealValue sealed,
              Vault.Handle.sealValue_eq_ok sealed, Except.toOption]
          · cases left
        simp [sealed]

section Steps

variable {start : World Cipher Rest} {touched : List String}
  {past : List (Event Rest)} {event : Event Rest}

theorem dropped_append :
    Dropped (past ++ [event]) ↔
      Dropped past ∨ ∃ reason, event = ⟨0, .invalidate reason, ()⟩ := by
  simp only [Dropped, List.mem_append, List.mem_singleton, exists_or,
    eq_comm]

/-- What the call did to the cached tokens. -/
def CacheStep (event : Event Rest) (world after : World Cipher Rest) : Prop :=
  (∃ reason, event = ⟨0, .invalidate reason, ()⟩) ∧
      after.server.trackerTokens = none ∨
    (∀ reason, event ≠ ⟨0, .invalidate reason, ()⟩) ∧
      after.server.trackerTokens = world.server.trackerTokens

theorem Tracked.caches
    (tracked : Tracked sealing master start touched ⟨world, past⟩)
    (step : CacheStep event world after) :
    (Dropped (past ++ [event]) → after.server.trackerTokens = none) ∧
      (¬ Dropped (past ++ [event]) →
        after.server.trackerTokens = start.server.trackerTokens) := by
  rw [dropped_append]
  rcases step with ⟨drops, empty⟩ | ⟨keeps, same⟩
  · exact ⟨fun _ => empty, fun kept => absurd (.inr drops) kept⟩
  · rw [same]
    constructor
    · rintro (before | ⟨reason, now⟩)
      · exact tracked.dropped before
      · exact absurd now (keeps reason)
    · exact fun kept => tracked.cached fun before => kept (.inl before)

theorem Tracked.unwritten
    (tracked : Tracked sealing master start touched ⟨world, past⟩)
    (files : after.vault.file = world.vault.file)
    (idle : Idle sealing master start event)
    (step : CacheStep event world after) :
    Tracked sealing master start touched ⟨after, past ++ [event]⟩ := by
  obtain ⟨dropped, cached⟩ := tracked.caches step
  constructor
  · intro key absent
    simp only [files]
    exact tracked.untouched key absent
  · intro all
    simp only [files]
    exact tracked.idle fun other member =>
      all other (List.mem_append_left _ member)
  · intro other member altering
    simp only [files]
    rcases List.mem_append.mp member with before | now
    · exact tracked.altered other before altering
    · cases List.mem_singleton.mp now
      exact absurd idle altering
  · simp only [files]
    exact tracked.salts
  · exact dropped
  · exact cached

variable [DecidableEq Rest]

theorem cacheStep_of_performed {request : Call Rest} {answer : Answer request}
    (performed : perform sealing master 0 world request answer =
      some after) :
    CacheStep ⟨0, request, answer⟩ world after := by
  cases request with
  | invalidate reason =>
    cases performed
    exact .inl ⟨⟨reason, rfl⟩, rfl⟩
  | vault wanted =>
    obtain ⟨host, answer⟩ := answer
    obtain ⟨rfl, -⟩ := perform_vault performed
    exact .inr ⟨by simp, rfl⟩
  | lockConfigWrite | unlockConfigWrite =>
    simp only [perform] at performed
    split at performed
    · cases performed
      exact .inr ⟨by simp, rfl⟩
    · cases performed
  | writeFile recovered text =>
    obtain ⟨-, -, -, rfl⟩ := perform_writeFile performed
    exact .inr ⟨by simp, rfl⟩
  | writeConfig | clearConfigError | resetLegacyTokenStatus =>
    cases performed
    exact .inr ⟨by simp, rfl⟩
  | _ =>
    rw [perform_reading (by trivial) performed]
    exact .inr ⟨by simp, rfl⟩

/-- A write under a key that was not written yet. -/
theorem Tracked.written {answer : Vault.Answer}
    (tracked : Tracked sealing master start touched ⟨world, past⟩)
    (opened : Opened sealing master world 0 handle)
    (untouched : mutation.key ∉ touched)
    (performed : perform sealing master 0 world (.vault (.mutate mutation))
      (host, .ok answer) = some after) :
    Tracked sealing master start (mutation.key :: touched)
      ⟨after, past ++ [⟨0, .vault (.mutate mutation), (host, .ok answer)⟩]⟩ ∧
      ∃ later, Opened sealing master after 0 later := by
  obtain ⟨⟨later, opens, -, -⟩, written⟩ :=
    written_of_performed opened performed
  obtain ⟨own, others, -⟩ := records_of_written opened written
  obtain ⟨dropped, cached⟩ :=
    tracked.caches (cacheStep_of_performed performed)
  have idleIff : Idle sealing master start
      ⟨0, .vault (.mutate mutation), (host, .ok answer)⟩ ↔
        fileRecord start.vault.file mutation.key =
          leaves sealing handle host mutation := by
    cases mutation with
    | put key value => exact idle_put_iff tracked opened written
    | remove key => exact Iff.rfl
  refine ⟨⟨?_, ?_, ?_, ?_, dropped, cached⟩, later, opens⟩
  · intro key absent
    obtain ⟨different, before⟩ := not_or.mp (List.mem_cons.not.mp absent)
    simp only [others key different]
    exact tracked.untouched key before
  · intro all
    have earlier := tracked.idle fun other member =>
      all other (List.mem_append_left _ member)
    have now := idleIff.mp (all _ (by simp))
    rw [← tracked.untouched mutation.key untouched] at now
    exact (parsedFile_of_unchanged opened written now).trans earlier
  · intro other member altering
    rcases List.mem_append.mp member with before | now
    · obtain ⟨key, among, different⟩ := tracked.altered other before altering
      refine ⟨key, List.mem_cons_of_mem _ among, ?_⟩
      have elsewhere : key ≠ mutation.key := by
        rintro rfl
        exact untouched among
      simpa only [others key elsewhere] using different
    · cases List.mem_singleton.mp now
      refine ⟨mutation.key, List.mem_cons_self, ?_⟩
      simp only [own]
      exact fun same => altering (idleIff.mpr same.symm)
  · intro salt records held
    obtain ⟨between, now⟩ := tracked.salts salt records held
    exact salt_of_written written now

end Steps

section Submissions

variable (sealing master)

/-- One request and nobody else. -/
def solitary [DecidableEq Rest] :
    Process.Protocol Nat (World Cipher Rest) (Call Rest) Answer where
  perform := perform sealing master
  condition _ event := event.thread = 0
  invariant _ := True
  guarantee _ _ _ := True

variable {sealing master} [DecidableEq Rest] {start : World Cipher Rest}
  {touched : List String} {moment : Moment Cipher Rest}

variable {α : Type}

variable {request : Call Rest} {program : Program Rest α}

theorem solitary_call {post : α → Moment Cipher Rest → Prop}
    {next : Answer request → Program Rest α}
    (step : ∀ answer after,
      perform sealing master 0 moment.world request answer =
          some after.world →
        after.past = moment.past ++ [⟨0, request, answer⟩] →
          Safe (solitary sealing master) 0 post (next answer) after) :
    Safe (solitary sealing master) 0 post (.call request next) moment := by
  have still : (solitary sealing master).Stable 0 (· = moment) := by
    rintro before after rfl ⟨other, different, -, -, request, answer,
      performed⟩
    exact absurd performed.meets different
  apply Safe.call still rfl
  rintro before answer after rfl performed
  exact ⟨trivial, trivial, step answer after performed.performed
    performed.past⟩

omit [DecidableEq Rest] in
theorem idle_of_plain (plain : request.IsPlain) (answer : Answer request) :
    Idle sealing master start ⟨0, request, answer⟩ := by
  cases request with
  | vault wanted => exact plain.elim
  | _ => trivial

theorem solitary_plain (plain : program.Only Call.IsPlain)
    (tracked : Tracked sealing master start touched moment) :
    Safe (solitary sealing master) 0
      (fun _ after => Tracked sealing master start touched after) program
      moment := by
  induction program generalizing moment with
  | done value => exact tracked
  | call request next ih =>
    apply solitary_call
    intro answer after performed past
    apply ih answer (plain.2 answer)
    have files := congrArg Vault.World.file
      (vault_of_plain plain.1 performed)
    have step := tracked.unwritten files (idle_of_plain plain.1 answer)
      (cacheStep_of_performed performed)
    rwa [← past] at step

theorem solitary_open
    (tracked : Tracked sealing master start touched moment) :
    Safe (solitary sealing master) 0
      (fun opened after => Tracked sealing master start touched after ∧
        ∀ value, opened = .ok value →
          ∃ handle, Opened sealing master after.world 0 handle)
      openVault moment := by
  apply solitary_call
  rintro ⟨host, answer⟩ after performed past
  have idle : Idle sealing master start
      (⟨0, .vault .open, (host, answer)⟩ : Event Rest) := by
    trivial
  have step := tracked.unwritten (file_of_open performed) idle
    (cacheStep_of_performed performed)
  rw [← past] at step
  refine ⟨step, fun value opened => ?_⟩
  cases answer with
  | error reason => cases opened
  | ok answer =>
    obtain ⟨handle, opens, -⟩ := opened_of_open performed
    exact ⟨handle, opens⟩

theorem solitary_mutate (mutation : Vault.Mutation) (purpose : String)
    (tracked : Tracked sealing master start touched moment)
    (opened : ∃ handle, Opened sealing master moment.world 0 handle)
    (untouched : mutation.key ∉ touched) :
    Safe (solitary sealing master) 0
      (fun mutated after => ∃ keys, keys ⊆ mutation.key :: touched ∧
        Tracked sealing master start keys after ∧
        ∀ value, mutated = .ok value →
          ∃ handle, Opened sealing master after.world 0 handle)
      (mutateVault mutation purpose) moment := by
  obtain ⟨handle, opened⟩ := opened
  apply solitary_call
  rintro ⟨host, answer⟩ after performed past
  cases answer with
  | error reason =>
    have idle : Idle sealing master start (⟨0, .vault (.mutate mutation),
        (host, .error reason)⟩ : Event Rest) := by
      cases mutation <;> trivial
    have step := tracked.unwritten (file_of_failed performed) idle
      (cacheStep_of_performed performed)
    rw [← past] at step
    exact ⟨touched, List.subset_cons_self _ _, step, nofun⟩
  | ok given =>
    obtain ⟨step, later⟩ := tracked.written opened untouched performed
    rw [← past] at step
    exact ⟨mutation.key :: touched, fun _ among => among, step,
      fun _ _ => later⟩

/-- What a submission leaves, however it ends. -/
def Traced (sealing : Sealing Cipher) (master : String)
    (start : World Cipher Rest) (moment : Moment Cipher Rest) : Prop :=
  ∃ touched, Tracked sealing master start touched moment

theorem solitary_applySecret (key value : String) (clear : Bool)
    (tracked : Tracked sealing master start touched moment)
    (untouched : key ∉ touched) :
    Safe (solitary sealing master) 0
      (fun _ after => ∃ keys, keys ⊆ key :: touched ∧
        Tracked sealing master start keys after)
      (applySecret key value clear) moment := by
  have unchanged : touched ⊆ key :: touched := List.subset_cons_self _ _
  simp only [applySecret]
  split
  · exact ⟨touched, unchanged, tracked⟩
  · refine (solitary_open tracked).bind ?_
    rintro opened later ⟨tracked, opens⟩
    apply Safe.proceed
    · exact fun _ _ => ⟨touched, unchanged, tracked⟩
    · intro done went
      have wrote : ∀ mutation purpose, Vault.Mutation.key mutation = key →
          Safe (solitary sealing master) 0
            (fun _ after => ∃ keys, keys ⊆ key :: touched ∧
              Tracked sealing master start keys after)
            (mutateVault mutation purpose) later := by
        rintro mutation purpose rfl
        refine (solitary_mutate mutation purpose tracked (opens done went)
          untouched).mono ?_
        rintro mutated after ⟨keys, among, tracked, -⟩
        exact ⟨keys, among, tracked⟩
      have either : Safe (solitary sealing master) 0
          (fun _ after => ∃ keys, keys ⊆ key :: touched ∧
            Tracked sealing master start keys after)
          (if clear then mutateVault (.remove key) ("removing " ++ key)
            else mutateVault (.put key (Rust.trim value))
              ("storing " ++ key)) later := by
        split
        · exact wrote _ _ rfl
        · exact wrote _ _ rfl
      refine either.bind fun mutated after traced => ?_
      apply Safe.proceed
      · exact fun _ _ => traced
      · exact fun _ _ => traced

theorem solitary_mutate_twice {first second : Vault.Mutation}
    {purpose aim : String} (different : second.key ≠ first.key)
    (tracked : Tracked sealing master start [] moment)
    (opened : ∃ handle, Opened sealing master moment.world 0 handle) :
    Safe (solitary sealing master) 0
      (fun _ after => Traced sealing master start after)
      ((mutateVault first purpose).attempt fun _ => mutateVault second aim)
      moment := by
  refine (solitary_mutate first purpose tracked opened List.not_mem_nil).bind ?_
  rintro mutated later ⟨keys, among, tracked, opens⟩
  apply Safe.proceed
  · exact fun _ _ => ⟨keys, tracked⟩
  · intro value went
    have untouched : second.key ∉ keys := by
      intro member
      exact different (List.mem_singleton.mp (among member))
    refine (solitary_mutate second aim tracked (opens value went)
      untouched).mono ?_
    rintro mutated after ⟨keys, -, tracked, -⟩
    exact ⟨keys, tracked⟩

theorem solitary_rotate (new : String)
    (tracked : Tracked sealing master start [] moment)
    (opened : ∃ handle, Opened sealing master moment.world 0 handle) :
    Safe (solitary sealing master) 0
      (fun _ after => Traced sealing master start after)
      (rotateTrackerTokenIn new) moment := by
  apply solitary_call
  rintro ⟨host, answer⟩ after performed past
  have same := (vault_of_get performed).1
  have step := tracked.unwritten (congrArg (·.vault.file) same)
    (by trivial : Idle sealing master start
      (⟨0, .vault (.get trackerToken), (host, answer)⟩ : Event Rest))
    (cacheStep_of_performed performed)
  rw [← past] at step
  rw [← same] at opened
  cases answer with
  | error reason => exact ⟨[], step⟩
  | ok answer =>
    have puts : Safe (solitary sealing master) 0
        (fun _ after => Traced sealing master start after)
        (mutateVault (.put trackerToken new) "storing the announce token")
        after := by
      refine (solitary_mutate _ _ step opened List.not_mem_nil).mono ?_
      rintro mutated later ⟨keys, -, tracked, -⟩
      exact ⟨keys, tracked⟩
    simp only [preservePrevious]
    split
    · exact puts
    · split
      · exact puts
      · exact solitary_mutate_twice (Ne.symm previous_ne_current) step opened

theorem solitary_mutateTrackerToken (reason : String)
    {mutation : Program Rest (Except String Unit)}
    (changes : ∀ moment : Moment Cipher Rest,
      Tracked sealing master start [] moment →
        (∃ handle, Opened sealing master moment.world 0 handle) →
          Safe (solitary sealing master) 0
            (fun _ after => Traced sealing master start after) mutation
            moment)
    (tracked : Tracked sealing master start [] moment) :
    Safe (solitary sealing master) 0
      (fun _ after => Traced sealing master start after)
      (mutateTrackerToken reason mutation) moment := by
  refine (solitary_open tracked).bind ?_
  rintro opened later ⟨tracked, opens⟩
  apply Safe.proceed
  · exact fun _ _ => ⟨[], tracked⟩
  · intro value went
    refine (changes later tracked (opens value went)).bind ?_
    rintro mutated after ⟨keys, tracked⟩
    apply Safe.proceed
    · exact fun _ _ => ⟨keys, tracked⟩
    · intro done _
      have drops : ((.call (.invalidate reason) fun _ =>
          .call .resetLegacyTokenStatus fun _ => .done (.ok ()) :
            Program Rest (Except String Unit))).Only Call.IsPlain :=
        ⟨trivial, fun _ => ⟨trivial, fun _ => trivial⟩⟩
      exact (solitary_plain drops tracked).mono
        fun _ _ tracked => ⟨keys, tracked⟩

theorem solitary_clear (tracked : Tracked sealing master start [] moment)
    (opened : ∃ handle, Opened sealing master moment.world 0 handle) :
    Safe (solitary sealing master) 0
      (fun _ after => Traced sealing master start after)
      clearTrackerTokenIn moment :=
  solitary_mutate_twice previous_ne_current tracked opened

theorem solitary_finalize (tracked : Tracked sealing master start [] moment)
    (opened : ∃ handle, Opened sealing master moment.world 0 handle) :
    Safe (solitary sealing master) 0
      (fun _ after => Traced sealing master start after)
      finalizeTrackerTokenIn moment := by
  refine (solitary_mutate _ _ tracked opened List.not_mem_nil).mono ?_
  rintro mutated after ⟨keys, -, tracked, -⟩
  exact ⟨keys, tracked⟩

theorem solitary_plain_traced (plain : program.Only Call.IsPlain)
    (traced : Traced sealing master start moment) :
    Safe (solitary sealing master) 0
      (fun _ after => Traced sealing master start after) program moment := by
  obtain ⟨keys, tracked⟩ := traced
  exact (solitary_plain plain tracked).mono fun _ _ tracked => ⟨keys, tracked⟩

variable {Doc : Type} (documents : Documents Doc Rest)

omit [DecidableEq Rest] in
theorem invalidateUnlessCommitted_plain (changed : Bool) (response : Response) :
    (invalidateUnlessCommitted changed response :
      Program Rest Response).Only Call.IsPlain := by
  rw [invalidateUnlessCommitted]
  split
  · exact ⟨trivial, fun _ => trivial⟩
  · trivial

theorem solitary_writeConfigAndSecret (location : String) (next : Option String)
    (edit : Doc → Except String Doc) (key value : String) (clear : Bool)
    (tracked : Tracked sealing master start touched moment)
    (untouched : key ∉ touched) :
    Safe (solitary sealing master) 0
      (fun _ after => Traced sealing master start after)
      (writeConfigAndSecret documents location next edit key value clear)
      moment := by
  refine (solitary_plain (prepareConfig_plain documents edit) tracked).bind ?_
  intro prepared later tracked
  cases prepared with
  | error reason => exact ⟨touched, tracked⟩
  | ok pending =>
    refine (solitary_applySecret key value clear tracked untouched).bind ?_
    rintro applied later ⟨keys, -, tracked⟩
    cases applied with
    | error reason =>
      exact solitary_plain_traced ⟨trivial, fun _ => trivial⟩ ⟨keys, tracked⟩
    | ok changed =>
      refine solitary_plain_traced ?_ ⟨keys, tracked⟩
      exact (commitConfig_plain location next pending).bind
        (invalidateUnlessCommitted_plain changed)

theorem solitary_saveNotifications (isUrl : String → Bool)
    (form : NotificationsForm) (edit : Option Nat → Doc → Except String Doc)
    (tracked : Tracked sealing master start [] moment) :
    Safe (solitary sealing master) 0
      (fun _ after => Traced sealing master start after)
      (saveNotifications documents isUrl form edit) moment := by
  simp only [saveNotifications]
  split
  · exact ⟨[], tracked⟩
  · split
    · exact ⟨[], tracked⟩
    · split
      · exact ⟨[], tracked⟩
      · refine (solitary_applySecret _ _ _ tracked List.not_mem_nil).bind ?_
        rintro applied later ⟨keys, among, tracked⟩
        cases applied with
        | error reason => exact ⟨keys, tracked⟩
        | ok changed =>
          have untouched : notificationsWebhookUrl ∉ keys := by
            intro member
            have same := List.mem_singleton.mp (among member)
            revert same
            decide
          refine (solitary_writeConfigAndSecret documents _ _ _ _ _ _ tracked
            untouched).bind ?_
          exact fun response _ =>
            solitary_plain_traced (invalidateUnlessCommitted_plain _ response)

theorem solitary_saveTracker (next : Option String)
    (edit : Doc → Except String Doc) (token : String) (clearToken : Bool)
    (tracked : Tracked sealing master start [] moment) :
    Safe (solitary sealing master) 0
      (fun _ after => Traced sealing master start after)
      (saveTracker documents next edit token clearToken) moment := by
  refine (solitary_plain (prepareConfig_plain documents edit) tracked).bind ?_
  intro prepared later tracked
  cases prepared with
  | error reason => exact ⟨[], tracked⟩
  | ok pending =>
    have tokens : Safe (solitary sealing master) 0
        (fun _ after => Traced sealing master start after)
        (saveTrackerToken (Rust.trim token) clearToken) later := by
      simp only [saveTrackerToken]
      split
      · exact solitary_mutateTrackerToken _ (fun _ => solitary_clear) tracked
      · split
        · exact solitary_mutateTrackerToken _
            (fun _ => solitary_rotate (Rust.trim token)) tracked
        · exact ⟨[], tracked⟩
    simp only
    split
    · exact solitary_plain_traced ⟨trivial, fun _ => trivial⟩ ⟨[], tracked⟩
    · refine tokens.bind ?_
      intro changed after traced
      cases changed with
      | error reason =>
        exact solitary_plain_traced ⟨trivial, fun _ => trivial⟩ traced
      | ok _ =>
        exact solitary_plain_traced
          (commitConfig_plain "tracker" next pending) traced

theorem solitary_generateSecret (field : String)
    (tracked : Tracked sealing master start [] moment) :
    Safe (solitary sealing master) 0
      (fun _ after => Traced sealing master start after)
      (generateSecret field) moment := by
  simp only [generateSecret]
  split
  · exact ⟨[], tracked⟩
  · have drawing : (Prog.call Call.randomHex Prog.done :
        Program Rest (Except String String)).Only Call.IsPlain :=
      ⟨trivial, fun _ => trivial⟩
    refine (solitary_plain drawing tracked).bind ?_
    intro drawn later tracked
    cases drawn with
    | error reason => exact ⟨[], tracked⟩
    | ok generated =>
      refine (solitary_mutateTrackerToken _ (fun _ => solitary_rotate generated)
        tracked).bind ?_
      intro rotated after traced
      cases rotated with
      | error reason => exact traced
      | ok _ => exact traced

theorem solitary_finalizeTracker
    (tracked : Tracked sealing master start [] moment) :
    Safe (solitary sealing master) 0
      (fun _ after => Traced sealing master start after) finalizeTracker
      moment := by
  refine (solitary_mutateTrackerToken _ (fun _ => solitary_finalize)
    tracked).bind ?_
  intro finalized after traced
  cases finalized with
  | error reason => exact traced
  | ok _ => exact traced

/-- What is not a rejection promises nothing. -/
def WhenRejected (sealing : Sealing Cipher) (master : String)
    (start : World Cipher Rest) (response : Response)
    (moment : Moment Cipher Rest) : Prop :=
  ∀ message, response = .rejected message →
    Traced sealing master start moment

theorem solitary_anything (program : Program Rest α) :
    Safe (solitary sealing master) 0 (fun _ _ => True) program moment := by
  induction program generalizing moment with
  | done value => trivial
  | call request next ih => exact solitary_call fun answer _ _ _ => ih answer

theorem solitary_importConfig (text : String)
    (tracked : Tracked sealing master start [] moment) :
    Safe (solitary sealing master) 0 (WhenRejected sealing master start)
      (importConfig documents text) moment := by
  simp only [importConfig]
  split
  · exact fun _ _ => ⟨[], tracked⟩
  · rename_i config _
    have commits : (Prog.call Call.lockConfigWrite fun _ =>
        commitConfig "config" none ⟨true, text, config⟩ :
          Program Rest Response).Only Call.IsPlain :=
      ⟨trivial, fun _ => commitConfig_plain "config" none _⟩
    refine (solitary_plain commits tracked).bind ?_
    intro response later tracked
    split
    · rename_i redirected
      refine (solitary_anything (importPeers documents)).bind ?_
      rintro _ after _ message rfl
      cases redirected
    · exact fun _ _ => ⟨[], tracked⟩

theorem solitary_job (job : Job Doc)
    (tracked : Tracked sealing master start [] moment) :
    Safe (solitary sealing master) 0 (WhenRejected sealing master start)
      (job.program documents) moment := by
  have always : ∀ {program : Program Rest Response},
      Safe (solitary sealing master) 0
        (fun _ after => Traced sealing master start after) program moment →
      Safe (solitary sealing master) 0 (WhenRejected sealing master start)
        program moment :=
    fun safe => safe.mono fun _ _ traced _ _ => traced
  cases job with
  | idle => exact nofun
  | writeConfig location next edit =>
    apply always
    refine (solitary_plain (prepareConfig_plain documents edit) tracked).bind ?_
    intro prepared later tracked
    cases prepared with
    | error reason => exact ⟨[], tracked⟩
    | ok pending =>
      exact solitary_plain_traced (commitConfig_plain location next pending)
        ⟨[], tracked⟩
  | writeConfigAndSecret location next edit key value clear =>
    exact always (solitary_writeConfigAndSecret documents location next edit
      key value clear tracked List.not_mem_nil)
  | saveNotifications isUrl form edit =>
    exact always
      (solitary_saveNotifications documents isUrl form edit tracked)
  | saveTracker next edit token clearToken =>
    exact always
      (solitary_saveTracker documents next edit token clearToken tracked)
  | generateSecret field => exact always (solitary_generateSecret field tracked)
  | finalizeTracker => exact always (solitary_finalizeTracker tracked)
  | importConfig text => exact solitary_importConfig documents text tracked
  | importPeers =>
    refine (solitary_anything (importPeers documents)).bind ?_
    exact fun _ _ _ => nofun

end Submissions

end Tracking

/-- One submission to an instance. -/
def alone {Doc : Type} (job : Job Doc) : Nat → Job Doc
  | 0 => job
  | _ + 1 => .idle

/-- A submission that was answered with the rejection page, at whatever step
it failed, has left the vault's records and the accepted tokens alone if and
only if none of its vault writes that went through changed a record, and the
caches it dropped held what the vault does. -/
theorem unharmed_iff_idle {Doc : Type} [DecidableEq Rest]
    (sealing : Sealing Cipher) (master : String)
    (documents : Documents Doc Rest) (world : World Cipher Rest)
    (job : Job Doc) (trace : List (Event Rest))
    (reached : Process.Pool Nat (World Cipher Rest) (Call Rest) Answer
      Response)
    (run : Process.Run (perform sealing master) .always
      (pool documents world (alone job)) trace reached)
    (message : String)
    (rejected : reached.threads 0 = .done (.rejected message)) :
    Unharmed sealing master world reached.world ↔
      (∀ event ∈ trace, Idle sealing master world event) ∧
        (Dropped trace → CacheCurrent sealing master world) := by
  have idle : ∀ other, other ≠ 0 → (pool documents world
      (alone job)).threads other = .done .finished := by
    intro other different
    match other with
    | 0 => exact absurd rfl different
    | _ + 1 => rfl
  have start : Tracked sealing master world [] ⟨world, []⟩ :=
    { untouched := fun _ _ => rfl
      idle := fun _ => rfl
      altered := fun _ member => absurd member List.not_mem_nil
      salts := fun _ records held => ⟨records, held⟩
      dropped := fun ⟨_, member⟩ => absurd member List.not_mem_nil
      cached := fun _ => rfl }
  obtain ⟨own, -⟩ := run.only_thread fun other different =>
    ⟨.finished, idle other different⟩
  have sound : Process.Sound (solitary sealing master)
      (fun thread response moment => thread = 0 →
        WhenRejected sealing master world response moment)
      trace reached := by
    refine own.sound ?_ ⟨trivial, ?_⟩
    · rintro thread value before after holds ⟨other, different, -, -,
        request, answer, performed⟩ rfl
      exact absurd performed.meets different
    · intro thread
      by_cases first : thread = 0
      · subst first
        exact (solitary_job documents job start).mono
          fun _ _ held _ => held
      · rw [idle thread first]
        exact fun zero => absurd zero first
  obtain ⟨touched, tracked⟩ := sound.finished rejected rfl message rfl
  exact tracked.unharmed_iff

def tokenRecord (key token : String) : String × SealedRecord :=
  (key, ⟨List.replicate nonceLen 0,
    Vault.toUtf8 token ++ Vault.tag "master" (Vault.toUtf8 key)⟩)

/-- An instance with some records in its vault. -/
def vaultWorld (records : Vault.Records) : World String String :=
  ⟨.start (Vault.serialise (List.replicate saltLen 1) records).toOption, none,
    some "", ⟨"", []⟩, none, .fresh⟩

/-- The operator turns the announce token off. -/
def clearing : Job String := .saveTracker none .ok "" true

def diskFull : WriteFailure := ⟨"No space left on device", false⟩

/-- Both removals go through, and `sharerr.toml` cannot be written. -/
def clearsAndFails (existed : Bool) : List (Event String) :=
  [⟨0, .lockConfigWrite, ()⟩, ⟨0, .readConfigError, none⟩,
    ⟨0, .readFile, .ok ""⟩,
    ⟨0, .vault .open, (Vault.World.goodHost 1 0, .ok .opened)⟩,
    ⟨0, .vault (.mutate (.remove trackerToken)),
      (Vault.World.goodHost 1 0, .ok (.removed existed))⟩,
    ⟨0, .vault (.mutate (.remove trackerTokenPrevious)),
      (Vault.World.goodHost 1 0, .ok (.removed existed))⟩,
    ⟨0, .invalidate "the tracker token was cleared", ()⟩,
    ⟨0, .resetLegacyTokenStatus, ()⟩,
    ⟨0, .writeFile false "", .error diskFull⟩, ⟨0, .unlockConfigWrite, ()⟩]

theorem run_of_clearing (world : World String String) (existed : Bool)
    (left : Vault.Records)
    (replayed : (Process.replay (perform Vault.tagging "master")
        (fun _ _ => true) [] (pool plainDocuments world (alone clearing))
          (clearsAndFails existed)).map
        (fun reached => ((reached.threads 0).result?,
          Vault.content reached.world.vault.file)) =
      some (some (.rejected diskFull.message), .ok left)) :
    ∃ reached, Process.Run (perform Vault.tagging "master") .always
        (pool plainDocuments world (alone clearing)) (clearsAndFails existed)
        reached ∧
      reached.threads 0 = .done (.rejected diskFull.message) ∧
        Vault.content reached.world.vault.file = .ok left := by
  obtain ⟨reached, run, seen⟩ :=
    Process.Run.exists_of_replay (fun _ _ _ => trivial) replayed
  obtain ⟨ended, content⟩ := Prod.mk.inj seen
  exact ⟨reached, run, Prog.eq_done_of_result? ended, content⟩

/-- Without a token there is nothing to lose. -/
theorem nothing_cleared :
    ∃ trace reached, Process.Run (perform Vault.tagging "master") .always
        (pool plainDocuments (vaultWorld [tokenRecord "sonarr.api_key" "abc"])
          (alone clearing)) trace reached ∧
      Unharmed Vault.tagging "master"
        (vaultWorld [tokenRecord "sonarr.api_key" "abc"]) reached.world := by
  obtain ⟨reached, run, rejected, -⟩ := run_of_clearing
    (vaultWorld [tokenRecord "sonarr.api_key" "abc"]) false
    [tokenRecord "sonarr.api_key" "abc"] (by decide +kernel)
  refine ⟨_, reached, run, ?_⟩
  exact (unharmed_iff_idle Vault.tagging "master" plainDocuments _ clearing
    _ reached run _ rejected).mpr ⟨by decide +kernel, fun _ _ => rfl⟩

/-- An instance that asks for a token and still takes the one before. -/
def tokenWorld : World String String :=
  vaultWorld [tokenRecord trackerToken "current",
    tokenRecord trackerTokenPrevious "old"]

/-- The rejected save has removed both tokens. -/
theorem rejected_save_clears_tokens :
    ∃ trace reached, Process.Run (perform Vault.tagging "master") .always
        (pool plainDocuments tokenWorld (alone clearing)) trace reached ∧
      (∃ message, reached.threads 0 = .done (.rejected message)) ∧
        ¬ Unharmed Vault.tagging "master" tokenWorld reached.world := by
  obtain ⟨reached, run, rejected, left⟩ :=
    run_of_clearing tokenWorld true [] (by decide +kernel)
  refine ⟨_, reached, run, ⟨_, rejected⟩, fun unharmed => ?_⟩
  have records := unharmed.records
  rw [left] at records
  revert records
  decide +kernel

end Settings

end Sharerr
