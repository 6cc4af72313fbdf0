import Sharerr.Vault.Alike
import Sharerr.Vault.Updates

/-!
# What a failed write leaves behind

A put or a removal that fails before it writes changes nothing.  One that
fails while writing has already read the file into its handle and changed the
records there.  Whether anyone can tell is whether the handle reads any key
differently: a file that exists is read again by the next mutation, and one
that does not is written from records that read the same.
-/

namespace Sharerr

namespace Vault

variable {Cipher : Type} {sealing : Sealing Cipher} {cipher : Cipher}
  {salt : Bytes} {index : Nat}

namespace World

section Observations

variable (sealing)

/-- What a file holds under a key, as a cipher reads it. -/
def reading (cipher : Cipher) (file : Option Bytes) (key : String) :
    Option (Except VaultError (Option String)) :=
  file.map fun raw => do
    let (salt, records) ← parse raw
    get sealing.toCrypto ⟨salt, cipher, records⟩ key

/-- The calls a later caller may make: mutations on any handle, gets on this
one, and opening more handles with its master key. -/
def Later (handle : Handle Cipher) (index : Nat) : Op → Prop
  | .open _ master _ => sealing.derive master handle.salt = .ok handle.cipher
  | .get other _ => other = index
  | .mutate _ _ _ => True

/-- Whatever is called later, two worlds give the same answers and leave
files that read the same. -/
def SameLater (handle : Handle Cipher) (index : Nat)
    (left right : World Cipher) : Prop :=
  ∀ later : List Op, (∀ op ∈ later, Later sealing handle index op) →
    left.answers sealing later = right.answers sealing later ∧
      ∀ key, reading sealing handle.cipher (left.run sealing later).file key =
        reading sealing handle.cipher (right.run sealing later).file key

end Observations

variable {handle one two changed : Handle Cipher}
  {left right world : World Cipher} {raw : Bytes} {host : Host}
  {mutation : Mutation}

/-- A relation that later calls keep, and under which they answer the same,
cannot be told by them. -/
theorem sameLater_of_simulation {Related : World Cipher → World Cipher → Prop}
    (steps : ∀ {left right op}, Related left right →
      Later sealing handle index op →
        Related (left.step sealing op).1 (right.step sealing op).1 ∧
          (left.step sealing op).2 = (right.step sealing op).2)
    (reads : ∀ {left right}, Related left right → ∀ key,
      reading sealing handle.cipher left.file key =
        reading sealing handle.cipher right.file key)
    (related : Related left right) :
    SameLater sealing handle index left right := by
  intro later allowed
  induction later generalizing left right with
  | nil => exact ⟨rfl, reads related⟩
  | cons op ops ih =>
    obtain ⟨after, answer⟩ := steps related (allowed op List.mem_cons_self)
    obtain ⟨answers, files⟩ := ih after fun other member =>
      allowed other (List.mem_cons_of_mem _ member)
    refine ⟨?_, files⟩
    rw [World.answers, World.answers, answer, answers]

theorem reading_alike {left right : Option Bytes}
    (files : FilesAlike sealing cipher salt left right) (key : String) :
    reading sealing cipher left key = reading sealing cipher right key := by
  rcases files with
    rfl | ⟨one, other, lefts, rights, rfl, rfl, first, second, same⟩
  · rfl
  · simp only [reading, Option.map_some, first, second, bind, Except.bind]
    have gets : ∀ key, get sealing.toCrypto ⟨salt, cipher, lefts⟩ key =
        get sealing.toCrypto ⟨salt, cipher, rights⟩ key :=
      get_alike rfl rfl same
    rw [gets key]

theorem handles_withHandle (world : World Cipher) (index other : Nat)
    (handle : Handle Cipher) :
    (world.withHandle index handle).handles other =
      if other = index then some handle else world.handles other := by
  simp only [withHandle, Function.update_apply]

theorem withHandle_alike {lefts rights : Option Bytes}
    (alike : WorldsAlike sealing cipher salt index left right)
    (files : FilesAlike sealing cipher salt lefts rights) (opened : Nat)
    (handles : HandlesAlike sealing cipher salt one two)
    (own : opened = index → one.salt = salt → one.cipher = cipher) :
    WorldsAlike sealing cipher salt index
      { left.withHandle opened one with file := lefts }
      { right.withHandle opened two with file := rights } := by
  refine ⟨files, ?_, ?_⟩
  · intro other
    simp only [handles_withHandle]
    split
    · exact .inr ⟨one, two, rfl, rfl, handles⟩
    · exact alike.handles other
  · intro held found
    simp only [handles_withHandle] at found
    split at found
    · rename_i same
      cases found
      exact own same.symm
    · exact alike.own held found

theorem step_alike (lawful : sealing.Lawful) {op : Op}
    (alike : WorldsAlike sealing handle.cipher handle.salt index left right)
    (later : Later sealing handle index op) :
    WorldsAlike sealing handle.cipher handle.salt index
        (left.step sealing op).1 (right.step sealing op).1 ∧
      (left.step sealing op).2 = (right.step sealing op).2 := by
  cases op with
  | «open» opened master host =>
    simp only [step]
    rcases openAt_alike later alike.files host with
      ⟨reason, failed, failedToo⟩ | ⟨one, two, opens, opensToo, handles⟩
    · rw [failed, failedToo]
      exact ⟨alike, rfl⟩
    · rw [opens, opensToo]
      refine ⟨withHandle_alike alike alike.files opened handles ?_, rfl⟩
      intro _ salts
      have derived := (Handle.openAt_eq_ok opens).1
      rw [salts, show sealing.derive master handle.salt = _ from later]
        at derived
      exact (Except.ok.inj derived).symm
  | get other key =>
    obtain rfl : other = index := later
    refine ⟨alike, ?_⟩
    simp only [step]
    rcases alike.handles other with
      same | ⟨one, two, found, foundToo, handles⟩
    · rw [same]
    · rw [found, foundToo]
      rcases handles with rfl | ⟨salts, -, ciphers, records⟩
      · rfl
      · have own := alike.own one found salts
        have gets := get_alike own (ciphers ▸ own) records key
        simp only [Option.map_some, gets]
  | mutate other host mutation =>
    have mutated : ∀ {one two : Handle Cipher},
        left.handles other = some one → right.handles other = some two →
        HandlesAlike sealing handle.cipher handle.salt one two →
        WorldsAlike sealing handle.cipher handle.salt index
            (left.step sealing (.mutate other host mutation)).1
            (right.step sealing (.mutate other host mutation)).1 ∧
          (left.step sealing (.mutate other host mutation)).2 =
            (right.step sealing (.mutate other host mutation)).2 := by
      intro one two found foundToo handles
      obtain ⟨after, files, answers⟩ :=
        mutate_alike lawful handles alike.files host mutation
      simp only [step, found, foundToo]
      refine ⟨withHandle_alike alike files other after ?_, by rw [answers]⟩
      intro same salts
      subst same
      obtain ⟨keptSalt, keptCipher⟩ :
          (one.mutate sealing host left.file mutation).handle.salt =
              one.salt ∧
            (one.mutate sealing host left.file mutation).handle.cipher =
              one.cipher := Handle.mutate_keeps
      rw [keptCipher]
      exact alike.own one found (keptSalt ▸ salts)
    rcases alike.handles other with
      same | ⟨one, two, found, foundToo, handles⟩
    · cases found : left.handles other with
      | none =>
        have foundToo : right.handles other = none := same ▸ found
        simp only [step, found, foundToo]
        exact ⟨alike, trivial⟩
      | some one => exact mutated found (same ▸ found) (.inl rfl)
    · exact mutated found foundToo handles

variable (sealing) in
/-- The same file, which exists; the handles at `index` may hold different
records as long as they read the same. -/
structure Reread (index : Nat) (left right : World Cipher) : Prop where
  files : left.file = right.file
  present : ∃ raw, right.file = some raw
  others : ∀ other, other ≠ index →
    left.handles other = right.handles other
  own : left.handles index = right.handles index ∨
    ∃ one two, left.handles index = some one ∧
      right.handles index = some two ∧
      one.salt = two.salt ∧ one.cipher = two.cipher ∧
      ∀ key, one.get sealing.toCrypto key = two.get sealing.toCrypto key

theorem refreshed_eq_of_present (salts : one.salt = two.salt)
    (ciphers : one.cipher = two.cipher) (host : Host) :
    one.refreshed host (some raw) = two.refreshed host (some raw) := by
  simp only [Handle.refreshed]
  cases host.lock with
  | error reason => rfl
  | ok _ =>
    cases host.read with
    | error reason => rfl
    | ok _ =>
      simp only [bind, Except.bind, Except.map]
      cases parsed : parse raw with
      | error reason =>
        rw [Handle.reload_unreadable parsed,
          Handle.reload_unreadable parsed]
      | ok header =>
        obtain ⟨stored, records⟩ := header
        by_cases own : stored = one.salt
        · subst own
          have again : parse raw = .ok (two.salt, records) := by
            rw [parsed, salts]
          obtain ⟨first, reloaded, firstSalt, firstCipher, firstRecords⟩ :=
            Handle.reload_stored parsed
          obtain ⟨second, reloadedToo, secondSalt, secondCipher,
            secondRecords⟩ := Handle.reload_stored again
          rw [reloaded, reloadedToo]
          congr 1
          apply Handle.eq_of_parts
          · rw [firstSalt, secondSalt, salts]
          · rw [firstCipher, secondCipher, ciphers]
          · rw [firstRecords, secondRecords]
        · rw [Handle.reload_replaced parsed own,
            Handle.reload_replaced parsed (salts ▸ own)]

theorem mutate_of_present (salts : one.salt = two.salt)
    (ciphers : one.cipher = two.cipher) (host : Host) (mutation : Mutation) :
    (∃ reason,
        one.mutate sealing host (some raw) mutation =
          ⟨one, some raw, .error reason⟩ ∧
        two.mutate sealing host (some raw) mutation =
          ⟨two, some raw, .error reason⟩) ∨
      one.mutate sealing host (some raw) mutation =
        two.mutate sealing host (some raw) mutation := by
  have refreshed : one.refreshed host (some raw) =
      two.refreshed host (some raw) :=
    refreshed_eq_of_present salts ciphers host
  cases mutation with
  | put key value =>
    have sealed : one.sealValue sealing host.nonce key value =
        two.sealValue sealing host.nonce key value := by
      simp only [Handle.sealValue, ciphers]
    simp only [Handle.mutate, Handle.put, Handle.locked, sealed, refreshed]
    cases validateValue key value with
    | error reason => exact .inl ⟨_, rfl, rfl⟩
    | ok _ =>
      cases two.sealValue sealing host.nonce key value with
      | error reason => exact .inl ⟨_, rfl, rfl⟩
      | ok made =>
        cases two.refreshed host (some raw) with
        | error reason => exact .inl ⟨_, rfl, rfl⟩
        | ok fresh => exact .inr rfl
  | remove key =>
    simp only [Handle.mutate, Handle.remove, Handle.locked, refreshed]
    cases two.refreshed host (some raw) with
    | error reason => exact .inl ⟨_, rfl, rfl⟩
    | ok fresh => exact .inr rfl

theorem present_of_mutate :
    ∃ after, (handle.mutate sealing host (some raw) mutation).file =
      some after := by
  cases reached : handle.attempted sealing host (some raw) mutation with
  | none =>
    rcases Handle.mutate_of_not_attempted reached with
      ⟨reason, failed⟩ | ⟨fresh, -, -, -, nothing⟩
    · exact ⟨raw, by rw [failed]⟩
    · exact ⟨raw, by rw [nothing]⟩
  | some changed =>
    obtain ⟨answer, ends⟩ := Handle.mutate_of_attempted reached
    rw [ends, Handle.written]
    cases changed.persist host with
    | error reason => exact ⟨raw, rfl⟩
    | ok bytes => exact ⟨bytes, rfl⟩

theorem Reread.withHandle {file : Option Bytes}
    (reread : Reread sealing index left right)
    (present : ∃ raw, file = some raw) (opened : Nat) (handle : Handle Cipher) :
    Reread sealing index
      { left.withHandle opened handle with file := file }
      { right.withHandle opened handle with file := file } := by
  refine ⟨rfl, present, ?_, ?_⟩
  · intro other different
    simp only [handles_withHandle]
    split
    · rfl
    · exact reread.others other different
  · simp only [handles_withHandle]
    split
    · exact .inl rfl
    · exact reread.own

theorem step_reread {op : Op} (reread : Reread sealing index left right)
    (later : Later sealing handle index op) :
    Reread sealing index (left.step sealing op).1 (right.step sealing op).1 ∧
      (left.step sealing op).2 = (right.step sealing op).2 := by
  obtain ⟨raw, there⟩ := reread.present
  have thereToo : left.file = some raw := reread.files.trans there
  cases op with
  | «open» opened master host =>
    simp only [step, there, thereToo]
    cases Handle.openAt sealing master host (some raw) with
    | error reason => exact ⟨reread, rfl⟩
    | ok fresh =>
      have after := reread.withHandle ⟨raw, rfl⟩ opened fresh
      refine ⟨⟨reread.files, reread.present, after.others, after.own⟩, rfl⟩
  | get other key =>
    obtain rfl : other = index := later
    refine ⟨reread, ?_⟩
    simp only [step]
    rcases reread.own with same | ⟨one, two, found, foundToo, -, -, gets⟩
    · rw [same]
    · rw [found, foundToo]
      simp only [Option.map_some, gets key]
  | mutate other host mutation =>
    have same : left.handles other = right.handles other →
        Reread sealing index
            (left.step sealing (.mutate other host mutation)).1
            (right.step sealing (.mutate other host mutation)).1 ∧
          (left.step sealing (.mutate other host mutation)).2 =
            (right.step sealing (.mutate other host mutation)).2 := by
      intro equal
      simp only [step, equal, there, thereToo]
      cases right.handles other with
      | none => exact ⟨reread, rfl⟩
      | some held =>
        exact ⟨reread.withHandle present_of_mutate other _, rfl⟩
    by_cases own : other = index
    · subst own
      rcases reread.own with
        equal | ⟨one, two, found, foundToo, salts, ciphers, gets⟩
      · exact same equal
      · simp only [step, found, foundToo, there, thereToo]
        rcases mutate_of_present salts ciphers host mutation with
          ⟨reason, failed, failedToo⟩ | equal
        · rw [failed, failedToo]
          refine ⟨⟨rfl, ⟨raw, rfl⟩, ?_, ?_⟩, rfl⟩
          · intro another different
            simp only [handles_withHandle, if_neg different]
            exact reread.others another different
          · right
            refine ⟨one, two, ?_, ?_, salts, ciphers, gets⟩
            · simp only [handles_withHandle, if_true]
            · simp only [handles_withHandle, if_true]
        · rw [equal]
          exact ⟨reread.withHandle present_of_mutate other _, rfl⟩
    · exact same (reread.others other own)

section Traces

variable (sealing)

/-- The file is as it was, and everything later goes as it would have without
the call. -/
def Untraced (world : World Cipher) (index : Nat) (handle : Handle Cipher)
    (host : Host) (mutation : Mutation) : Prop :=
  let after := (world.step sealing (.mutate index host mutation)).1
  after.file = world.file ∧ SameLater sealing handle index after world

/-- The handle already read the key as the call would leave it, and every
other key as the file has it. -/
def Unnoticed (handle : Handle Cipher) (host : Host) (file : Option Bytes)
    (mutation : Mutation) : Prop :=
  ∀ fresh, handle.refreshed host file = .ok fresh →
    handle.get sealing.toCrypto mutation.key = .ok mutation.value? ∧
      ∀ other, other ≠ mutation.key →
        handle.get sealing.toCrypto other = fresh.get sealing.toCrypto other

end Traces

theorem stored_of_get {vault : Vault Cipher} {key value : String}
    (got : vault.get sealing.toCrypto key = .ok (some value)) :
    ∃ stored, recordOf vault.records key = some stored ∧
      sealing.decrypt vault.cipher stored.nonce stored.ciphertext
        (toUtf8 key) = some (toUtf8 value) := by
  simp only [get] at got
  split at got
  · cases got
  · rename_i stored held
    refine ⟨stored, held, ?_⟩
    split at got
    · cases got
    · rename_i plaintext opened
      split at got
      · cases got
      · rename_i text decoded
        cases got
        rw [← eq_toUtf8_of_fromUtf8 decoded]
        exact opened

theorem absent_of_get {vault : Vault Cipher} {key : String}
    (got : vault.get sealing.toCrypto key = .ok none) :
    recordOf vault.records key = none := by
  simp only [get] at got
  split at got
  · assumption
  · split at got
    · cases got
    · split at got
      · cases got
      · cases got

theorem step_of_unwritten {world : World Cipher} {index : Nat}
    {handle changed : Handle Cipher} {host : Host} {mutation : Mutation}
    {reason : VaultError} (found : world.handles index = some handle)
    (failed : (handle.mutate sealing host world.file mutation).answer =
      .error reason)
    (reached : handle.attempted sealing host world.file mutation =
      some changed) :
    (world.step sealing (.mutate index host mutation)).1 =
      world.withHandle index changed := by
  obtain ⟨answer, ends⟩ := Handle.mutate_of_attempted reached
  rw [ends, Handle.written] at failed
  simp only [step, found, ends, Handle.written]
  cases persisted : changed.persist host with
  | error because => rfl
  | ok bytes =>
    rw [persisted] at failed
    cases failed

theorem step_of_unreached {reason : VaultError}
    (found : world.handles index = some handle)
    (failed : (handle.mutate sealing host world.file mutation).answer =
      .error reason)
    (stopped : handle.attempted sealing host world.file mutation = none) :
    (world.step sealing (.mutate index host mutation)).1 = world := by
  rcases Handle.mutate_of_not_attempted stopped with
    ⟨because, ends⟩ | ⟨fresh, -, -, -, ends⟩
  · simp only [step, found, ends, withHandle]
    rw [← found, Function.update_eq_self]
  · rw [ends] at failed
    cases failed

/-- Before the file exists, a call whose change cannot be read put a value
over one that reads the same. -/
theorem alike_of_reads (lawful : sealing.Lawful) {file : Option Bytes}
    (reached : handle.attempted sealing host file mutation = some changed)
    (refreshed : handle.refreshed host file = .ok handle)
    (reads : ∀ key, changed.get sealing.toCrypto key =
      handle.get sealing.toCrypto key) :
    RecordsAlike sealing handle.cipher changed.records handle.records := by
  have own := (get_of_attempted lawful reached refreshed).1
  rw [reads] at own
  cases mutation with
  | put key value =>
    simp only [Handle.attempted, refreshed] at reached
    split at reached
    · rename_i nonce ciphertext fresh _ sealed again
      cases again
      cases reached
      have opened := lawful.opens (Handle.sealValue_eq_ok sealed)
      obtain ⟨stored, held, plaintext⟩ := stored_of_get own
      exact RecordsAlike.of_overwritten handle.formed held
        ⟨rfl, .inr ⟨toUtf8 value, opened, plaintext⟩⟩
    · cases reached
  | remove key =>
    simp only [Handle.attempted, refreshed] at reached
    split at reached
    · rename_i there
      have gone : recordOf handle.records key = none := absent_of_get own
      rw [gone] at there
      cases there
    · cases reached

theorem sameLater_refl (handle : Handle Cipher) (index : Nat)
    (world : World Cipher) : SameLater sealing handle index world world :=
  fun _ _ => ⟨rfl, fun _ => rfl⟩

/-- A handle that reads everything as before cannot be told from the one
before, whether the file exists or not. -/
theorem sameLater_of_reads (lawful : sealing.Lawful)
    (found : world.handles index = some handle)
    (reached : handle.attempted sealing host world.file mutation = some changed)
    (reads : ∀ key, changed.get sealing.toCrypto key =
      handle.get sealing.toCrypto key) :
    SameLater sealing handle index (world.withHandle index changed)
      world := by
  obtain ⟨fresh, refreshed, changedSalt, changedCipher, -⟩ :=
    Handle.attempted_eq_some reached
  obtain ⟨freshSalt, freshCipher, origin⟩ := Handle.refreshed_eq_ok refreshed
  have salts : changed.salt = handle.salt := changedSalt.trans freshSalt
  have ciphers : changed.cipher = handle.cipher :=
    changedCipher.trans freshCipher
  rcases origin with ⟨absent, rfl⟩ | ⟨raw, present, -⟩
  · -- nothing is on disk: the next write puts the changed records there
    have alike : HandlesAlike sealing fresh.cipher fresh.salt changed fresh :=
      .inr ⟨salts, rfl, ciphers, alike_of_reads lawful reached refreshed reads⟩
    have worlds : WorldsAlike sealing fresh.cipher fresh.salt index
        (world.withHandle index changed) world := by
      refine ⟨.inl rfl, ?_, ?_⟩
      · intro other
        simp only [handles_withHandle]
        split
        · rename_i same
          subst same
          exact .inr ⟨changed, fresh, rfl, found, alike⟩
        · exact .inl rfl
      · intro one held _
        simp only [handles_withHandle, if_true] at held
        cases held
        exact ciphers
    exact sameLater_of_simulation (step_alike lawful)
      (fun related => reading_alike related.files) worlds
  · have reread : Reread sealing index (world.withHandle index changed)
        world := by
      refine ⟨rfl, ⟨raw, present⟩, ?_, .inr ?_⟩
      · intro other different
        simp only [handles_withHandle, if_neg different]
      · refine ⟨changed, handle, ?_, found, salts, ciphers, reads⟩
        simp only [handles_withHandle, if_true]
    refine sameLater_of_simulation step_reread ?_ reread
    intro left right related key
    rw [related.files]

theorem got_injective {left right : Except VaultError (Option String)}
    (same : left.map Answer.got = right.map Answer.got) : left = right := by
  cases left with
  | error reason =>
    cases right with
    | error other =>
      cases same
      rfl
    | ok value => cases same
  | ok value =>
    cases right with
    | error other => cases same
    | ok other =>
      cases same
      rfl

/-- A failed put or removal leaves the file alone, and leaves no trace exactly
when it failed before it came to write or changed nothing its handle reads. -/
theorem untraced_iff (lawful : sealing.Lawful) {world : World Cipher}
    {index : Nat} {handle : Handle Cipher} {host : Host}
    {mutation : Mutation} {reason : VaultError}
    (found : world.handles index = some handle)
    (failed : (handle.mutate sealing host world.file mutation).answer =
      .error reason) :
    Untraced sealing world index handle host mutation ↔
      handle.attempted sealing host world.file mutation = none ∨
        Unnoticed sealing handle host world.file mutation := by
  cases reached : handle.attempted sealing host world.file mutation with
  | none =>
    refine ⟨fun _ => .inl rfl, fun _ => ?_⟩
    simp only [Untraced, step_of_unreached found failed reached]
    exact ⟨trivial, sameLater_refl handle index world⟩
  | some changed =>
    have after := step_of_unwritten found failed reached
    simp only [Untraced, after]
    constructor
    · rintro ⟨-, same⟩
      right
      intro fresh refreshed
      have reads : ∀ key, changed.get sealing.toCrypto key =
          handle.get sealing.toCrypto key := by
        intro key
        have answers := (same [.get index key] (by simp [Later])).1
        simp only [World.answers, step, handles_withHandle, if_true, found,
          Option.map_some, List.cons.injEq, Option.some.injEq,
          and_true] at answers
        exact got_injective answers
      obtain ⟨own, others⟩ := get_of_attempted lawful reached refreshed
      refine ⟨(reads mutation.key).symm.trans own, ?_⟩
      intro other different
      exact (reads other).symm.trans (others other different)
    · rintro (impossible | unnoticed)
      · cases impossible
      · refine ⟨rfl, sameLater_of_reads lawful found reached ?_⟩
        obtain ⟨fresh, refreshed, -⟩ := Handle.attempted_eq_some reached
        obtain ⟨own, others⟩ := get_of_attempted lawful reached refreshed
        obtain ⟨before, beforeOthers⟩ := unnoticed fresh refreshed
        intro key
        by_cases same : key = mutation.key
        · rw [same, own, before]
        · rw [others key same, beforeOthers key same]

def freshHandle : Handle String :=
  ⟨⟨List.replicate saltLen 1, "master", []⟩, List.length_replicate,
    WellFormed.nil⟩

def freshWorld : World String :=
  (World.start none).withHandle 0 freshHandle

theorem bad_token_untraced :
    Untraced tagging freshWorld 0 freshHandle (goodHost 0 1)
      (.put "tracker.token" "ab/cd") :=
  (untraced_iff tagging_lawful rfl rfl).mpr (.inl (by decide +kernel))

/-- On a vault that has no file yet, a put that finds the disk full is read
back from its handle. -/
theorem failed_put_is_traced :
    (freshWorld.step tagging
        (.mutate 0 fullDisk (.put "sonarr.api_key" "abc"))).2 =
      some (.error (.io "vault.tmp" "No space left on device")) ∧
    ¬ Untraced tagging freshWorld 0 freshHandle fullDisk
      (.put "sonarr.api_key" "abc") := by
  refine ⟨rfl, ?_⟩
  rintro ⟨-, same⟩
  have answers := (same [.get 0 "sonarr.api_key"] (by simp [Later])).1
  have values := congrArg (List.map (Option.map Except.toOption)) answers
  revert values
  decide +kernel

end World

end Vault

end Sharerr
