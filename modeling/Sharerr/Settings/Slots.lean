import Sharerr.Settings.Handlers
import Sharerr.Vault.Traces

/-!
# What a vault call does to the values in the file

A request sees the file through its own handle.  A successful put leaves its
value under its key and every other key as the file had it, whatever the
handle has read before.
-/

namespace Sharerr

namespace Settings

open Process (Prog)

variable {Cipher Rest : Type} (sealing : Sealing Cipher) (master : String)

/-- The value the file holds under a key, as the master key reads it. -/
def slot (world : World Cipher Rest) (key : String) : Option String := do
  let raw ← world.vault.file
  let (salt, records) ← (Vault.parse raw).toOption
  let cipher ← (sealing.derive master salt).toOption
  (Vault.get sealing.toCrypto ⟨salt, cipher, records⟩ key).toOption.join

/-- The thread holds a handle under the master key, with no records of its own
while there is no file. -/
def Opened (world : World Cipher Rest) (thread : Nat)
    (handle : Vault.Handle Cipher) : Prop :=
  world.vault.handles thread = some handle ∧
    sealing.derive master handle.salt = .ok handle.cipher ∧
      (world.vault.file = none → handle.records = [])

variable {sealing master} {world after : World Cipher Rest}
  {handle : Vault.Handle Cipher} {thread other : Nat} {host : Vault.Host}
  {key : String}

theorem previous_ne_current :
    Tracker.trackerTokenPrevious ≠ Tracker.trackerToken := by
  decide

theorem slot_of_absent (absent : world.vault.file = none) :
    slot sealing master world key = none := by
  simp [slot, absent]

theorem slot_of_present {raw : Bytes}
    (present : world.vault.file = some raw)
    (parsed : Vault.parse raw = .ok (handle.salt, handle.records))
    (derived : sealing.derive master handle.salt = .ok handle.cipher) :
    slot sealing master world key =
      (handle.get sealing.toCrypto key).toOption.join := by
  simp [slot, present, parsed, derived, Except.toOption]

theorem slot_congr (files : after.vault.file = world.vault.file) :
    slot sealing master after key = slot sealing master world key := by
  simp only [slot, files]

section Perform

variable [DecidableEq Rest]

theorem perform_vault {wanted : VaultCall}
    {answer : Except VaultError Vault.Answer}
    (performed : perform sealing master thread world (.vault wanted)
      (host, answer) = some after) :
    after = { world with
        vault := (world.vault.step sealing
          (wanted.op thread master host)).1 } ∧
      (world.vault.step sealing (wanted.op thread master host)).2 =
        some answer := by
  simp only [perform] at performed
  split at performed
  · rename_i returned
    cases performed
    exact ⟨rfl, returned⟩
  · cases performed

/-- A call that only asks. -/
def Call.IsReading : Call Rest → Prop
  | .readConfigError | .readConfig | .readFile | .randomHex | .openStore
  | .createPeer _ _ _ | .setPeerLimits _ _ _ | .setPeerGossipUrl _ _
  | .recordPeerEndpoint _ _ => True
  | _ => False

variable {request : Call Rest} {answer : Answer request}
  {mutation : Vault.Mutation}

theorem perform_reading (reading : request.IsReading)
    (performed : perform sealing master thread world request answer =
      some after) :
    after = world := by
  cases request with
  | readConfigError | readConfig =>
    simp only [perform] at performed
    split at performed
    · exact (Option.some.inj performed).symm
    · cases performed
  | readFile =>
    cases answer with
    | error reason => exact (Option.some.inj performed).symm
    | ok text =>
      simp only [perform] at performed
      split at performed
      · exact (Option.some.inj performed).symm
      · cases performed
  | randomHex | openStore | createPeer | setPeerLimits | setPeerGossipUrl
  | recordPeerEndpoint => exact (Option.some.inj performed).symm
  | _ => exact reading.elim

theorem perform_writeFile {recovered : Bool} {text : String}
    {answer : Except WriteFailure Unit}
    (performed : perform sealing master thread world
      (.writeFile recovered text) answer = some after) :
    ∃ stays, (answer = .ok () → stays = some text) ∧
      ((∃ failure, answer = .error failure ∧ failure.movedAside = false) →
        stays = world.text) ∧ after = { world with text := stays } := by
  cases answer with
  | ok _ =>
    cases performed
    exact ⟨some text, fun _ => rfl, nofun, rfl⟩
  | error failure =>
    simp only [perform] at performed
    split at performed
    · rename_i moved
      split at performed
      · cases performed
        refine ⟨none, nofun, ?_, rfl⟩
        rintro ⟨_, ⟨⟩, kept⟩
        rw [moved] at kept
        cases kept
      · cases performed
    · cases performed
      exact ⟨world.text, nofun, fun _ => rfl, rfl⟩

/-- A call that does not name the vault. -/
def Call.IsPlain : Call Rest → Prop
  | .vault _ => False
  | _ => True

theorem vault_of_plain (plain : request.IsPlain)
    (performed : perform sealing master thread world request answer =
      some after) :
    after.vault = world.vault := by
  cases request with
  | vault wanted => exact plain.elim
  | lockConfigWrite | unlockConfigWrite =>
    simp only [perform] at performed
    split at performed
    · cases performed
      rfl
    · cases performed
  | writeFile recovered text =>
    obtain ⟨-, -, -, rfl⟩ := perform_writeFile performed
    rfl
  | writeConfig | clearConfigError | invalidate | resetLegacyTokenStatus =>
    cases performed
    rfl
  | _ => rw [perform_reading (by trivial) performed]

omit [DecidableEq Rest] in
theorem step_handles {op : Vault.Op}
    (elsewhere : match op with
      | .open index _ _ | .mutate index _ _ => other ≠ index
      | .get _ _ => True) :
    (world.vault.step sealing op).1.handles other =
      world.vault.handles other := by
  cases op with
  | «open» index master host =>
    simp only [Vault.World.step]
    split
    · rfl
    · rw [Vault.World.handles_withHandle, if_neg elsewhere]
  | get index key => rfl
  | mutate index host mutation =>
    simp only [Vault.World.step]
    split
    · rfl
    · rw [Vault.World.handles_withHandle, if_neg elsewhere]

/-- A handle belongs to the request that opened it. -/
theorem handles_of_performed (different : other ≠ thread)
    (performed : perform sealing master thread world request answer =
      some after) :
    after.vault.handles other = world.vault.handles other := by
  by_cases plain : request.IsPlain
  · rw [vault_of_plain plain performed]
  · cases request with
    | vault wanted =>
      obtain ⟨host, answer⟩ := answer
      obtain ⟨rfl, -⟩ := perform_vault performed
      apply step_handles
      cases wanted with
      | «open» => exact different
      | get key => trivial
      | mutate mutation => exact different
    | _ => exact absurd trivial plain

theorem file_of_open {answer : Except VaultError Vault.Answer}
    (performed : perform sealing master thread world (.vault .open)
      (host, answer) = some after) :
    after.vault.file = world.vault.file := by
  obtain ⟨rfl, -⟩ := perform_vault performed
  simp only [VaultCall.op, Vault.World.step]
  split <;> rfl

theorem vault_of_get {answer : Except VaultError Vault.Answer}
    (performed : perform sealing master thread world (.vault (.get key))
      (host, answer) = some after) :
    after = world ∧ ∀ found, world.vault.handles thread = some found →
      answer = (found.get sealing.toCrypto key).map .got := by
  obtain ⟨rfl, returned⟩ := perform_vault performed
  refine ⟨rfl, fun found opened => ?_⟩
  simp only [VaultCall.op, Vault.World.step, opened, Option.map_some,
    Option.some.injEq] at returned
  exact returned.symm

/-- A vault that opened reads as its file. -/
theorem opened_of_open {answer : Vault.Answer}
    (performed : perform sealing master thread world (.vault .open)
      (host, .ok answer) = some after) :
    ∃ handle, Opened sealing master after thread handle ∧
      ∀ key, slot sealing master after key =
        (handle.get sealing.toCrypto key).toOption.join := by
  have files := file_of_open performed
  obtain ⟨rfl, returned⟩ := perform_vault performed
  simp only [VaultCall.op, Vault.World.step] at returned files ⊢
  cases opens : Vault.Handle.openAt sealing master host world.vault.file with
  | error reason =>
    rw [opens] at returned
    cases returned
  | ok handle =>
    obtain ⟨derived, read⟩ := Vault.Handle.openAt_eq_ok opens
    refine ⟨handle, ⟨?_, derived, fun absent => ?_⟩, fun key => ?_⟩
    · simp [Vault.World.withHandle]
    · rcases read with ⟨-, empty⟩ | ⟨raw, present, -⟩
      · exact empty
      · rw [opens] at files
        rw [files, present] at absent
        cases absent
    · rcases read with ⟨absent, empty⟩ | ⟨raw, present, parsed⟩
      · have nothing : handle.get sealing.toCrypto key = .ok none :=
          Vault.get_eq_none_of_absent (by simp [empty])
        rw [nothing]
        exact slot_of_absent absent
      · exact slot_of_present present parsed derived

theorem perform_mutate {answer : Except VaultError Vault.Answer}
    (found : world.vault.handles thread = some handle)
    (performed : perform sealing master thread world
      (.vault (.mutate mutation)) (host, answer) = some after) :
    let outcome := handle.mutate sealing host world.vault.file mutation
    outcome.answer = answer ∧ after.vault.file = outcome.file ∧
      after.vault.handles thread = some outcome.handle := by
  obtain ⟨rfl, returned⟩ := perform_vault performed
  simp only [VaultCall.op, Vault.World.step, found, Option.some.injEq]
    at returned ⊢
  exact ⟨returned, trivial, by simp [Vault.World.withHandle]⟩

theorem file_of_failed {reason : VaultError}
    (performed : perform sealing master thread world
      (.vault (.mutate mutation)) (host, .error reason) = some after) :
    after.vault.file = world.vault.file := by
  cases found : world.vault.handles thread with
  | none =>
    obtain ⟨-, returned⟩ := perform_vault performed
    simp [VaultCall.op, Vault.World.step, found] at returned
  | some handle =>
    obtain ⟨failed, -, -⟩ := perform_mutate found performed
    obtain ⟨rfl, -⟩ := perform_vault performed
    change (world.vault.step sealing (.mutate thread host mutation)).1.file =
      world.vault.file
    cases reached : handle.attempted sealing host world.vault.file
        mutation with
    | none =>
      rw [Vault.World.step_of_unreached found failed reached]
    | some changed =>
      rw [Vault.World.step_of_unwritten found failed reached]
      rfl

theorem absent_of_performed
    (performed : perform sealing master thread world request answer =
      some after) (absent : after.vault.file = none) :
    world.vault.file = none := by
  by_cases plain : request.IsPlain
  · rwa [vault_of_plain plain performed] at absent
  · cases request with
    | vault wanted =>
      obtain ⟨host, answer⟩ := answer
      cases wanted with
      | «open» => rwa [file_of_open performed] at absent
      | get key => rwa [(vault_of_get performed).1] at absent
      | mutate mutation =>
        cases found : world.vault.handles thread with
        | none =>
          obtain ⟨-, returned⟩ := perform_vault performed
          simp [VaultCall.op, Vault.World.step, found] at returned
        | some handle =>
          obtain ⟨-, files, -⟩ := perform_mutate found performed
          cases before : world.vault.file with
          | none => rfl
          | some raw =>
            rw [before] at files
            have stays : ∃ kept, (handle.mutate sealing host (some raw)
                mutation).file = some kept :=
              Vault.World.present_of_mutate
            obtain ⟨kept, present⟩ := stays
            rw [files, present] at absent
            cases absent
    | _ => exact absurd trivial plain

theorem Opened.of_other (opened : Opened sealing master world other handle)
    (different : other ≠ thread)
    (performed : perform sealing master thread world request answer =
      some after) :
    Opened sealing master after other handle := by
  obtain ⟨found, derived, empty⟩ := opened
  refine ⟨?_, derived, fun absent =>
    empty (absent_of_performed performed absent)⟩
  rw [handles_of_performed different performed, found]

/-- The record a vault write leaves under its key. -/
def leaves (sealing : Sealing Cipher) (handle : Vault.Handle Cipher)
    (host : Vault.Host) : Vault.Mutation → Option SealedRecord
  | .put key value =>
    match handle.sealValue sealing host.nonce key value with
    | .ok (nonce, ciphertext) => some ⟨nonce.1, ciphertext⟩
    | .error _ => none
  | .remove _ => none

/-- A successful call finds nothing to remove, or puts a file in place that
reads as its handle. -/
inductive Written (sealing : Sealing Cipher) (master : String)
    (world after : World Cipher Rest) (thread : Nat)
    (handle : Vault.Handle Cipher) (host : Vault.Host)
    (mutation : Vault.Mutation) : Prop where
  | nothing (removal : mutation.value? = none)
      (absent : Vault.World.fileRecord world.vault.file mutation.key = none)
      (files : after.vault.file = world.vault.file)
  | records (fresh changed : Vault.Handle Cipher)
      (refreshed : handle.refreshed host world.vault.file = .ok fresh)
      (reached : handle.attempted sealing host world.vault.file mutation =
        some changed)
      (raw : Bytes) (files : after.vault.file = some raw)
      (parsed : Vault.parse raw = .ok (handle.salt, changed.records))
      (ciphers : changed.salt = handle.salt ∧ changed.cipher = handle.cipher)

theorem written_of_performed {answer : Vault.Answer}
    (opened : Opened sealing master world thread handle)
    (performed : perform sealing master thread world
      (.vault (.mutate mutation)) (host, .ok answer) = some after) :
    (∃ later, Opened sealing master after thread later ∧
      later.salt = handle.salt ∧ later.cipher = handle.cipher) ∧
      Written sealing master world after thread handle host mutation := by
  obtain ⟨found, derived, empty⟩ := opened
  obtain ⟨done, files, keeps⟩ := perform_mutate found performed
  have keepsKeys :
      (handle.mutate sealing host world.vault.file mutation).handle.salt =
          handle.salt ∧
        (handle.mutate sealing host world.vault.file mutation).handle.cipher =
          handle.cipher :=
    Vault.Handle.mutate_keeps
  obtain ⟨salts, ciphers⟩ := keepsKeys
  have stays : sealing.derive master
      (handle.mutate sealing host world.vault.file mutation).handle.salt =
        .ok (handle.mutate sealing host world.vault.file
          mutation).handle.cipher := by
    rw [salts, ciphers, derived]
  cases reached : handle.attempted sealing host world.vault.file mutation with
  | none =>
    rcases Vault.Handle.mutate_of_not_attempted reached with
      ⟨because, ends⟩ | ⟨fresh, refreshed, removal, gone, ends⟩
    · rw [ends] at done
      cases done
    · obtain ⟨-, -, read⟩ := Vault.Handle.refreshed_eq_ok refreshed
      rw [ends] at files keeps stays salts ciphers
      refine ⟨⟨fresh, ⟨keeps, stays, fun absent => ?_⟩, salts, ciphers⟩,
        .nothing removal ?_ files⟩
      · rcases read with ⟨none, rfl⟩ | ⟨raw, present, -⟩
        · exact empty none
        · rw [files, present] at absent
          cases absent
      · rcases read with ⟨none, rfl⟩ | ⟨raw, present, parsed⟩
        · simp [none, Vault.World.fileRecord, Vault.content,
            Except.toOption, Vault.recordOf]
        · simpa [present, Vault.World.fileRecord, Vault.content, parsed,
            Except.toOption, Except.map] using gone
  | some changed =>
    obtain ⟨because, ends⟩ := Vault.Handle.mutate_of_attempted reached
    obtain ⟨fresh, refreshed, -, -, -⟩ :=
      Vault.Handle.attempted_eq_some reached
    rw [ends, Vault.Handle.written] at done files keeps stays salts ciphers
    cases persisted : changed.persist host with
    | error reason =>
      rw [persisted] at done
      cases done
    | ok bytes =>
      rw [persisted] at files keeps stays salts ciphers
      have parsed := Vault.Handle.parse_of_persist persisted
      rw [salts] at parsed
      refine ⟨⟨changed, ⟨keeps, stays, fun absent => ?_⟩, salts,
        ciphers⟩, .records fresh changed refreshed reached bytes files
          parsed ⟨salts, ciphers⟩⟩
      rw [files] at absent
      cases absent

/-- What a successful put leaves in the file. -/
theorem slot_of_put (lawful : sealing.Lawful) {value : String}
    {answer : Vault.Answer} (opened : Opened sealing master world thread handle)
    (performed : perform sealing master thread world
      (.vault (.mutate (.put key value))) (host, .ok answer) = some after) :
    (∃ later, Opened sealing master after thread later) ∧
      slot sealing master after key = some value ∧
        ∀ other, other ≠ key → slot sealing master after other =
          slot sealing master world other := by
  obtain ⟨⟨later, opens, -, -⟩, written⟩ :=
    written_of_performed opened performed
  obtain ⟨-, derived, empty⟩ := opened
  refine ⟨⟨later, opens⟩, ?_⟩
  cases written with
  | nothing removal => cases removal
  | records fresh changed refreshed reached raw files parsed same =>
    obtain ⟨own, others⟩ := Vault.get_of_attempted lawful reached refreshed
    obtain ⟨freshSalt, freshCipher, read⟩ :=
      Vault.Handle.refreshed_eq_ok refreshed
    have stored : changed.get sealing.toCrypto key = .ok (some value) :=
      own
    have reads : sealing.derive master fresh.salt = .ok fresh.cipher := by
      rw [freshSalt, freshCipher, derived]
    have stays : sealing.derive master changed.salt =
        .ok changed.cipher := by
      rw [same.1, same.2, derived]
    rw [← same.1] at parsed
    refine ⟨?_, fun other different => ?_⟩
    · rw [slot_of_present files parsed stays, stored]
      rfl
    · rw [slot_of_present files parsed stays, others other different]
      rcases read with ⟨absent, rfl⟩ | ⟨raw, present, reparsed⟩
      · have nothing : fresh.get sealing.toCrypto other = .ok none :=
          Vault.get_eq_none_of_absent (by simp [empty absent])
        rw [nothing, slot_of_absent absent]
        rfl
      · rw [← freshSalt] at reparsed
        exact (slot_of_present present reparsed reads).symm

omit [DecidableEq Rest] in
/-- A call changes the record under its key only. -/
theorem records_of_written (opened : Opened sealing master world thread handle)
    (written : Written sealing master world after thread handle host mutation) :
    Vault.World.fileRecord after.vault.file mutation.key =
        leaves sealing handle host mutation ∧
      (∀ other, other ≠ mutation.key →
        Vault.World.fileRecord after.vault.file other =
          Vault.World.fileRecord world.vault.file other) ∧
        (leaves sealing handle host mutation = none →
          mutation.value? = none) := by
  obtain ⟨-, -, empty⟩ := opened
  cases written with
  | nothing removal absent files =>
    cases mutation with
    | put key value => cases removal
    | remove key =>
      rw [files]
      exact ⟨absent, fun _ _ => rfl, fun _ => rfl⟩
  | records fresh changed refreshed reached raw files parsed same =>
    have now : ∀ key, Vault.World.fileRecord after.vault.file key =
        Vault.recordOf changed.records key := by
      intro key
      simp [Vault.World.fileRecord, Vault.content, files, parsed,
        Except.toOption, Except.map]
    have before : ∀ key, Vault.World.fileRecord world.vault.file key =
        Vault.recordOf fresh.records key := by
      intro key
      obtain ⟨-, -, ⟨absent, rfl⟩ | ⟨raw, present, reparsed⟩⟩ :=
        Vault.Handle.refreshed_eq_ok refreshed
      · simp [Vault.World.fileRecord, Vault.content, absent, empty absent,
          Except.toOption]
      · simp [Vault.World.fileRecord, Vault.content, present, reparsed,
          Except.toOption, Except.map]
    cases mutation with
    | put key value =>
      simp only [Vault.Handle.attempted] at reached
      split at reached
      · rename_i nonce ciphertext other _ sealed again
        rw [refreshed] at again
        cases again
        cases reached
        simp only [now, before, leaves, sealed, Vault.Mutation.key]
        refine ⟨Vault.recordOf_insertRecord_same key _ _,
          fun other different => ?_, by rintro ⟨⟩⟩
        exact Vault.recordOf_insertRecord_other different _ _
      · cases reached
    | remove key =>
      simp only [Vault.Handle.attempted, refreshed] at reached
      split at reached
      · cases reached
        simp only [now, before, leaves, Vault.Mutation.key]
        refine ⟨Vault.recordOf_removeRecord_same key _,
          fun other different => ?_, fun _ => rfl⟩
        exact Vault.recordOf_removeRecord_other different _
      · cases reached

end Perform

section Plain

variable {Doc : Type} (documents : Documents Doc Rest)

theorem abandon_plain {α : Type} (reason : String) :
    (abandon reason : Program Rest (Except String α)).Only Call.IsPlain :=
  ⟨trivial, fun _ => trivial⟩

theorem prepareDocument_plain (recovered : Bool) (document : Doc)
    (edit : Doc → Except String Doc) :
    (prepareDocument documents recovered document edit).Only
      Call.IsPlain := by
  simp only [prepareDocument]
  split
  · exact abandon_plain _
  · split
    · exact abandon_plain _
    · trivial

theorem prepareConfig_plain (edit : Doc → Except String Doc) :
    (prepareConfig documents edit).Only Call.IsPlain := by
  refine ⟨trivial, fun _ => ⟨trivial, fun broken => ?_⟩⟩
  cases broken with
  | some reason =>
    exact ⟨trivial, fun config => prepareDocument_plain documents _ _ _⟩
  | none =>
    refine ⟨trivial, fun read => ?_⟩
    cases read with
    | error reason => exact abandon_plain reason
    | ok text =>
      simp only
      split
      · exact abandon_plain _
      · exact prepareDocument_plain documents _ _ _

theorem replaceConfig_plain (config : Config Rest) :
    (replaceConfig config).Only Call.IsPlain :=
  ⟨trivial, fun _ => ⟨trivial, fun _ => ⟨trivial, fun _ => trivial⟩⟩⟩

theorem commitConfig_plain (location : String) (next : Option String)
    (pending : PendingConfig Rest) :
    (commitConfig location next pending).Only Call.IsPlain := by
  refine ⟨trivial, fun written => ?_⟩
  cases written with
  | error failure => exact ⟨trivial, fun _ => trivial⟩
  | ok _ =>
    exact (replaceConfig_plain pending.config).bind fun _ =>
      ⟨trivial, fun _ => trivial⟩

end Plain

end Settings

end Sharerr
