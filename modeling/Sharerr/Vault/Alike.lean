import Mathlib.Data.List.Forall2
import Sharerr.Vault.Handles

/-!
# Vaults that read the same

Sealing a value twice gives two ciphertexts.  Two vaults hold the same values
when they hold the same keys and each pair of records is equal or opens to one
plaintext; every call on the two ends in the same way and leaves two vaults of
which that is true again.
-/

namespace Sharerr

/-- What XChaCha20-Poly1305 promises: it opens what it sealed, and a sealed
value is longer than the value by the tag. -/
structure Sealing.Lawful {Cipher : Type} (sealing : Sealing Cipher) : Prop where
  opens : ∀ {cipher nonce plaintext aad ciphertext},
    sealing.encrypt cipher nonce plaintext aad = some ciphertext →
      sealing.decrypt cipher nonce ciphertext aad = some plaintext
  length : ∀ {cipher nonce ciphertext aad plaintext},
    sealing.decrypt cipher nonce ciphertext aad = some plaintext →
      ciphertext.length = plaintext.length + 16

namespace Vault

theorem tagging_lawful : tagging.Lawful := by
  have tagLength : ∀ cipher aad, (tag cipher aad).length = 16 := by
    intro cipher aad
    simp only [tag, List.length_take, List.length_append,
      List.length_replicate]
    omega
  constructor
  · intro cipher nonce plaintext aad ciphertext sealed
    cases sealed
    simp [tagging, tagLength]
  · intro cipher nonce ciphertext aad plaintext opened
    simp only [tagging] at opened
    split at opened
    · rename_i tagged
      cases opened
      have long := congrArg List.length tagged
      simp only [List.length_drop, tagLength] at long
      simp only [List.length_take]
      omega
    · cases opened

variable {Cipher : Type} {sealing : Sealing Cipher}

section Alike

variable (sealing) (cipher : Cipher)

def EntryAlike (left right : String × SealedRecord) : Prop :=
  left.1 = right.1 ∧
    (left.2 = right.2 ∨ ∃ plaintext,
      sealing.decrypt cipher left.2.nonce left.2.ciphertext
        (toUtf8 left.1) = some plaintext ∧
      sealing.decrypt cipher right.2.nonce right.2.ciphertext
        (toUtf8 right.1) = some plaintext)

def RecordsAlike (left right : Records) : Prop :=
  List.Forall₂ (EntryAlike sealing cipher) left right

end Alike

variable {cipher : Cipher}

theorem EntryAlike.refl (entry : String × SealedRecord) :
    EntryAlike sealing cipher entry entry :=
  ⟨rfl, .inl rfl⟩

theorem RecordsAlike.refl (records : Records) :
    RecordsAlike sealing cipher records records :=
  List.forall₂_same.mpr fun entry _ => EntryAlike.refl entry

theorem RecordsAlike.insertRecord {left right : Records}
    (alike : RecordsAlike sealing cipher left right) (key : String)
    (record : SealedRecord) :
    RecordsAlike sealing cipher (Vault.insertRecord key record left)
      (Vault.insertRecord key record right) := by
  induction alike with
  | nil => exact RecordsAlike.refl _
  | @cons first second lefts rights same rest ih =>
    obtain ⟨name, stored⟩ := first
    obtain ⟨again, other⟩ := second
    obtain ⟨rfl, reads⟩ := same
    simp only [Vault.insertRecord]
    split
    · exact .cons (EntryAlike.refl _) rest
    · split
      · exact .cons (EntryAlike.refl _) (.cons ⟨rfl, reads⟩ rest)
      · exact .cons ⟨rfl, reads⟩ ih

theorem RecordsAlike.removeRecord {left right : Records}
    (alike : RecordsAlike sealing cipher left right) (key : String) :
    RecordsAlike sealing cipher (Vault.removeRecord key left)
      (Vault.removeRecord key right) := by
  induction alike with
  | nil => exact .nil
  | @cons first second lefts rights same rest ih =>
    obtain ⟨name, stored⟩ := first
    obtain ⟨again, other⟩ := second
    obtain ⟨rfl, reads⟩ := same
    by_cases named : name = key
    · simpa [Vault.removeRecord, named] using ih
    · have kept : EntryAlike sealing cipher (name, stored) (name, other) :=
        ⟨rfl, reads⟩
      simpa [Vault.removeRecord, named, RecordsAlike] using
        List.Forall₂.cons kept ih

theorem RecordsAlike.recordOf {left right : Records}
    (alike : RecordsAlike sealing cipher left right) (key : String) :
    (Vault.recordOf left key = none ∧ Vault.recordOf right key = none) ∨
      ∃ one other, Vault.recordOf left key = some one ∧
        Vault.recordOf right key = some other ∧
        EntryAlike sealing cipher (key, one) (key, other) := by
  induction alike with
  | nil => exact .inl ⟨rfl, rfl⟩
  | @cons first second lefts rights same rest ih =>
    obtain ⟨name, stored⟩ := first
    obtain ⟨again, other⟩ := second
    obtain ⟨rfl, reads⟩ := same
    by_cases named : name = key
    · subst named
      exact .inr ⟨stored, other, by simp [Vault.recordOf],
        by simp [Vault.recordOf], rfl, reads⟩
    · simpa [Vault.recordOf, List.find?_cons, named] using ih

theorem RecordsAlike.isSome {left right : Records}
    (alike : RecordsAlike sealing cipher left right) (key : String) :
    (Vault.recordOf left key).isSome = (Vault.recordOf right key).isSome := by
  rcases alike.recordOf key with ⟨none, again⟩ | ⟨one, other, found, again, -⟩
  · rw [none, again]
  · rw [found, again]
    rfl

/-- A value put over one that reads the same. -/
theorem RecordsAlike.of_overwritten {records : Records} {key : String}
    {record stored : SealedRecord} (formed : WellFormed records)
    (held : Vault.recordOf records key = some stored)
    (same : EntryAlike sealing cipher (key, record) (key, stored)) :
    RecordsAlike sealing cipher (Vault.insertRecord key record records)
      records := by
  induction records with
  | nil => cases held
  | cons entry rest ih =>
    obtain ⟨name, other⟩ := entry
    obtain ⟨lowest, sorted⟩ := List.pairwise_cons.mp formed.sorted
    have formedRest : WellFormed rest :=
      ⟨sorted, fun entry member =>
        formed.nonces entry (List.mem_cons_of_mem _ member)⟩
    simp only [Vault.insertRecord]
    split
    · rename_i named
      subst named
      have first : other = stored := by
        simpa [Vault.recordOf] using held
      subst first
      exact .cons same (RecordsAlike.refl rest)
    · rename_i different
      have later : Vault.recordOf rest key = some stored := by
        simpa [Vault.recordOf, List.find?_cons, Ne.symm different] using held
      split
      · rename_i before
        -- the name is smaller than all of them, so it is not among them
        obtain ⟨found, member, _⟩ := Option.map_eq_some_iff.mp later
        have above := lowest found (List.mem_of_find?_eq_some member)
        have named : found.1 = key := by
          simpa using List.find?_some member
        rw [named] at above
        exact absurd before (lt_asymm above)
      · exact .cons (EntryAlike.refl _) (ih formedRest later)

theorem recordBytes_alike (lawful : sealing.Lawful)
    {left right : String × SealedRecord}
    (alike : EntryAlike sealing cipher left right) :
    (∃ reason, recordBytes left = .error reason ∧
        recordBytes right = .error reason) ∨
      ∃ one other, recordBytes left = .ok one ∧
        recordBytes right = .ok other := by
  obtain ⟨name, stored⟩ := left
  obtain ⟨again, other⟩ := right
  obtain ⟨rfl, reads⟩ := alike
  have lengths : stored.ciphertext.length = other.ciphertext.length := by
    rcases reads with same | ⟨plaintext, first, second⟩
    · have equal : stored = other := same
      rw [equal]
    · rw [lawful.length first, lawful.length second]
  simp only [recordBytes, lengths]
  split
  · exact .inl ⟨_, rfl, rfl⟩
  · split
    · exact .inl ⟨_, rfl, rfl⟩
    · exact .inr ⟨_, _, rfl, rfl⟩

theorem recordsBytes_alike (lawful : sealing.Lawful) {left right : Records}
    (alike : RecordsAlike sealing cipher left right) :
    (∃ reason, recordsBytes left = .error reason ∧
        recordsBytes right = .error reason) ∨
      ∃ one other, recordsBytes left = .ok one ∧
        recordsBytes right = .ok other := by
  induction alike with
  | nil => exact .inr ⟨[], [], rfl, rfl⟩
  | cons same rest ih =>
    rcases recordBytes_alike lawful same with
      ⟨reason, left, right⟩ | ⟨one, other, left, right⟩
    · left
      exact ⟨reason, by simp [recordsBytes, left, bind, Except.bind],
        by simp [recordsBytes, right, bind, Except.bind]⟩
    · rcases ih with ⟨reason, lefts, rights⟩ | ⟨ones, others, lefts, rights⟩
      · left
        exact ⟨reason,
          by simp [recordsBytes, left, lefts, bind, Except.bind],
          by simp [recordsBytes, right, rights, bind, Except.bind]⟩
      · right
        exact ⟨_, _, by simp only [recordsBytes, left, lefts]; rfl,
          by simp only [recordsBytes, right, rights]; rfl⟩

section Worlds

variable (sealing) (cipher : Cipher) (salt : Bytes) (index : Nat)

/-- The same file, or two files of one vault that read the same. -/
def FilesAlike (left right : Option Bytes) : Prop :=
  left = right ∨ ∃ one other lefts rights,
    left = some one ∧ right = some other ∧
    parse one = .ok (salt, lefts) ∧ parse other = .ok (salt, rights) ∧
    RecordsAlike sealing cipher lefts rights

def HandlesAlike (left right : Handle Cipher) : Prop :=
  left = right ∨
    (left.salt = salt ∧ right.salt = salt ∧ left.cipher = right.cipher ∧
      RecordsAlike sealing cipher left.records right.records)

/-- The files and the handles of two worlds read the same, and the handle at
`index` has, for the salt, the cipher they are compared under. -/
structure WorldsAlike (left right : World Cipher) : Prop where
  files : FilesAlike sealing cipher salt left.file right.file
  handles : ∀ other, left.handles other = right.handles other ∨
    ∃ one two, left.handles other = some one ∧
      right.handles other = some two ∧
      HandlesAlike sealing cipher salt one two
  own : ∀ one, left.handles index = some one → one.salt = salt →
    one.cipher = cipher

end Worlds

variable {salt : Bytes} {index : Nat}

variable {left right : Handle Cipher} {lefts rights : Option Bytes}

theorem HandlesAlike.cipher_eq
    (alike : HandlesAlike sealing cipher salt left right) :
    left.cipher = right.cipher := by
  rcases alike with rfl | ⟨-, -, same, -⟩
  · rfl
  · exact same

theorem HandlesAlike.salt_eq
    (alike : HandlesAlike sealing cipher salt left right) :
    left.salt = right.salt := by
  rcases alike with rfl | ⟨one, other, -⟩
  · rfl
  · rw [one, other]

theorem HandlesAlike.records
    (alike : HandlesAlike sealing cipher salt left right) :
    RecordsAlike sealing cipher left.records right.records := by
  rcases alike with rfl | ⟨-, -, -, same⟩
  · exact RecordsAlike.refl _
  · exact same

/-- Handles that read the same give the same answers. -/
theorem get_alike {left right : Vault Cipher}
    (lefts : left.cipher = cipher) (rights : right.cipher = cipher)
    (alike : RecordsAlike sealing cipher left.records right.records)
    (key : String) :
    left.get sealing.toCrypto key = right.get sealing.toCrypto key := by
  have found := alike.recordOf key
  change (left.record? key = none ∧ right.record? key = none) ∨
    ∃ one other, left.record? key = some one ∧
      right.record? key = some other ∧
      EntryAlike sealing cipher (key, one) (key, other) at found
  rcases found with ⟨none, again⟩ | ⟨one, other, some, again, -, reads⟩
  · simp only [get, none, again]
  · simp only [get, some, again, lefts, rights]
    rcases reads with same | ⟨plaintext, first, second⟩
    · have equal : one = other := same
      rw [equal]
    · simp only at first second
      rw [first, second]

theorem reload_alike (alike : HandlesAlike sealing cipher salt left right)
    (files : FilesAlike sealing cipher salt lefts rights) :
    (∃ reason, left.reload (.ok lefts) = .error reason ∧
        right.reload (.ok rights) = .error reason) ∨
      ∃ one other, left.reload (.ok lefts) = .ok one ∧
        right.reload (.ok rights) = .ok other ∧
        HandlesAlike sealing cipher salt one other := by
  have ciphers := alike.cipher_eq
  have salts := alike.salt_eq
  rcases files with rfl | ⟨first, second, held, again, rfl, rfl, one, two, same⟩
  · cases lefts with
    | none => exact .inr ⟨left, right, rfl, rfl, alike⟩
    | some raw =>
      cases parsed : parse raw with
      | error reason =>
        exact .inl ⟨reason, Handle.reload_unreadable parsed left,
          Handle.reload_unreadable parsed right⟩
      | ok header =>
        obtain ⟨stored, records⟩ := header
        by_cases own : stored = left.salt
        · subst own
          have ownRight : parse raw = .ok (right.salt, records) := by
            rw [parsed, salts]
          obtain ⟨one, reloaded, oneSalt, oneCipher, oneRecords⟩ :=
            Handle.reload_stored parsed
          obtain ⟨two, again, twoSalt, twoCipher, twoRecords⟩ :=
            Handle.reload_stored ownRight
          refine .inr ⟨one, two, reloaded, again, .inl ?_⟩
          apply Handle.eq_of_parts
          · rw [oneSalt, twoSalt, salts]
          · rw [oneCipher, twoCipher, ciphers]
          · rw [oneRecords, twoRecords]
        · exact .inl ⟨_, Handle.reload_replaced parsed own,
            Handle.reload_replaced parsed (salts ▸ own)⟩
  · by_cases own : salt = left.salt
    · subst own
      obtain ⟨fresh, reloaded, freshSalt, freshCipher, freshRecords⟩ :=
        Handle.reload_stored one
      rw [salts] at two
      obtain ⟨other, reloadedToo, otherSalt, otherCipher, otherRecords⟩ :=
        Handle.reload_stored two
      refine .inr ⟨fresh, other, reloaded, reloadedToo, .inr ?_⟩
      refine ⟨freshSalt, otherSalt.trans salts.symm, ?_, ?_⟩
      · rw [freshCipher, otherCipher, ciphers]
      · rw [freshRecords, otherRecords]
        exact same
    · exact .inl ⟨_, Handle.reload_replaced one own,
        Handle.reload_replaced two (salts ▸ own)⟩

theorem refreshed_alike (alike : HandlesAlike sealing cipher salt left right)
    (files : FilesAlike sealing cipher salt lefts rights) (host : Host) :
    (∃ reason, left.refreshed host lefts = .error reason ∧
        right.refreshed host rights = .error reason) ∨
      ∃ one other, left.refreshed host lefts = .ok one ∧
        right.refreshed host rights = .ok other ∧
        HandlesAlike sealing cipher salt one other := by
  simp only [Handle.refreshed]
  cases host.lock with
  | error reason => exact .inl ⟨reason, rfl, rfl⟩
  | ok _ =>
    cases host.read with
    | error reason => exact .inl ⟨reason, rfl, rfl⟩
    | ok _ =>
      simp only [bind, Except.bind, Except.map]
      exact reload_alike alike files

section Outcomes

variable (sealing) (cipher : Cipher) (salt : Bytes)

def OutcomesAlike {Value : Type} (left right : Outcome Cipher Value) : Prop :=
  HandlesAlike sealing cipher salt left.handle right.handle ∧
    FilesAlike sealing cipher salt left.file right.file ∧
    left.answer = right.answer

end Outcomes

theorem written_alike {Value : Type} (lawful : sealing.Lawful)
    (alike : HandlesAlike sealing cipher salt left right)
    (files : FilesAlike sealing cipher salt lefts rights) (host : Host)
    (value : Value) :
    OutcomesAlike sealing cipher salt (left.written host lefts value)
      (right.written host rights value) := by
  rcases alike with rfl | ⟨leftSalt, rightSalt, ciphers, records⟩
  · simp only [Handle.written]
    cases left.persist host with
    | error reason => exact ⟨.inl rfl, files, rfl⟩
    | ok bytes => exact ⟨.inl rfl, .inl rfl, rfl⟩
  · have handles : HandlesAlike sealing cipher salt left right :=
      .inr ⟨leftSalt, rightSalt, ciphers, records⟩
    have ends : (∃ reason, left.persist host = .error reason ∧
          right.persist host = .error reason) ∨
        ∃ one other, left.persist host = .ok one ∧
          right.persist host = .ok other := by
      simp only [Handle.persist, serialise]
      rcases recordsBytes_alike lawful records with
        ⟨reason, one, other⟩ | ⟨first, second, one, other⟩
      · rw [one, other]
        exact .inl ⟨reason, rfl, rfl⟩
      · rw [one, other]
        cases host.write with
        | error reason => exact .inl ⟨reason, rfl, rfl⟩
        | ok _ => exact .inr ⟨_, _, rfl, rfl⟩
    rcases ends with ⟨reason, one, other⟩ | ⟨first, second, one, other⟩
    · simp only [Handle.written, one, other]
      exact ⟨handles, files, rfl⟩
    · simp only [Handle.written, one, other]
      refine ⟨handles, .inr ⟨first, second, left.records, right.records, rfl,
        rfl, ?_, ?_, records⟩, rfl⟩
      · rw [Handle.parse_of_persist one, leftSalt]
      · rw [Handle.parse_of_persist other, rightSalt]

theorem locked_alike {Value : Type}
    (alike : HandlesAlike sealing cipher salt left right)
    (files : FilesAlike sealing cipher salt lefts rights) (host : Host)
    {first second : Handle Cipher → Outcome Cipher Value}
    (mutates : ∀ one other, HandlesAlike sealing cipher salt one other →
      OutcomesAlike sealing cipher salt (first one) (second other)) :
    OutcomesAlike sealing cipher salt (left.locked host lefts first)
      (right.locked host rights second) := by
  rcases refreshed_alike alike files host with
    ⟨reason, one, other⟩ | ⟨one, other, ran, again, same⟩
  · simp only [Handle.locked, one, other]
    exact ⟨alike, files, rfl⟩
  · simp only [Handle.locked, ran, again]
    exact mutates one other same

theorem insert_alike (alike : HandlesAlike sealing cipher salt left right)
    (key : String) (nonce : Nonce) (ciphertext : Bytes) :
    HandlesAlike sealing cipher salt (left.insert key nonce ciphertext)
      (right.insert key nonce ciphertext) := by
  rcases alike with rfl | ⟨leftSalt, rightSalt, ciphers, records⟩
  · exact .inl rfl
  · exact .inr ⟨leftSalt, rightSalt, ciphers, records.insertRecord _ _⟩

theorem erase_alike (alike : HandlesAlike sealing cipher salt left right)
    (key : String) :
    HandlesAlike sealing cipher salt (left.erase key) (right.erase key) := by
  rcases alike with rfl | ⟨leftSalt, rightSalt, ciphers, records⟩
  · exact .inl rfl
  · exact .inr ⟨leftSalt, rightSalt, ciphers, records.removeRecord _⟩

theorem mutate_alike (lawful : sealing.Lawful)
    (alike : HandlesAlike sealing cipher salt left right)
    (files : FilesAlike sealing cipher salt lefts rights) (host : Host)
    (mutation : Mutation) :
    OutcomesAlike sealing cipher salt
      (left.mutate sealing host lefts mutation)
      (right.mutate sealing host rights mutation) := by
  cases mutation with
  | put key value =>
    have puts : OutcomesAlike sealing cipher salt
        (left.put sealing host lefts key value)
        (right.put sealing host rights key value) := by
      have sealed : right.sealValue sealing host.nonce key value =
          left.sealValue sealing host.nonce key value := by
        simp only [Handle.sealValue, alike.cipher_eq]
      simp only [Handle.put, sealed]
      cases validateValue key value with
      | error reason => exact ⟨alike, files, rfl⟩
      | ok _ =>
        cases left.sealValue sealing host.nonce key value with
        | error reason => exact ⟨alike, files, rfl⟩
        | ok made =>
          refine locked_alike alike files host ?_
          intro one other same
          exact written_alike lawful (insert_alike same _ _ _) files _ _
    obtain ⟨handles, after, answers⟩ := puts
    exact ⟨handles, after, by simp only [Handle.mutate, answers]⟩
  | remove key =>
    have removes : OutcomesAlike sealing cipher salt
        (left.remove host lefts key) (right.remove host rights key) := by
      refine locked_alike alike files host ?_
      intro one other same
      rw [same.records.isSome key]
      split
      · exact written_alike lawful (erase_alike same key) files _ _
      · exact ⟨same, files, rfl⟩
    obtain ⟨handles, after, answers⟩ := removes
    exact ⟨handles, after, by simp only [Handle.mutate, answers]⟩

/-- Two files that read the same open alike under the master key of the
comparison. -/
theorem openAt_alike {master : String}
    (derived : sealing.derive master salt = .ok cipher)
    (files : FilesAlike sealing cipher salt lefts rights) (host : Host) :
    (∃ reason, Handle.openAt sealing master host lefts = .error reason ∧
        Handle.openAt sealing master host rights = .error reason) ∨
      ∃ one other, Handle.openAt sealing master host lefts = .ok one ∧
        Handle.openAt sealing master host rights = .ok other ∧
        HandlesAlike sealing cipher salt one other := by
  rcases files with rfl | ⟨first, second, held, again, rfl, rfl, one, two, same⟩
  · cases Handle.openAt sealing master host lefts with
    | error reason => exact .inl ⟨reason, rfl, rfl⟩
    | ok handle => exact .inr ⟨handle, handle, rfl, rfl, .inl rfl⟩
  · have gets : ∀ key,
        get sealing.toCrypto ⟨salt, cipher, held⟩ key =
          get sealing.toCrypto ⟨salt, cipher, again⟩ key :=
      get_alike rfl rfl same
    have ends : (∃ reason,
          openFile sealing.toCrypto master (host.salt.map Subtype.val)
            (host.read.map fun _ => some first) = .error reason ∧
          openFile sealing.toCrypto master (host.salt.map Subtype.val)
            (host.read.map fun _ => some second) = .error reason) ∨
        (openFile sealing.toCrypto master (host.salt.map Subtype.val)
            (host.read.map fun _ => some first) =
              .ok ⟨salt, cipher, held⟩ ∧
          openFile sealing.toCrypto master (host.salt.map Subtype.val)
            (host.read.map fun _ => some second) =
              .ok ⟨salt, cipher, again⟩) := by
      cases host.read with
      | error reason => exact .inl ⟨reason, rfl, rfl⟩
      | ok _ =>
        simp only [openFile, Except.map, bind, Except.bind, one, two, derived,
          Except.mapError, pure, Except.pure]
        cases same with
        | nil => exact .inr ⟨rfl, rfl⟩
        | @cons entry other lefts rights alike rest =>
          obtain ⟨name, stored⟩ := entry
          obtain ⟨named, sealed⟩ := other
          obtain ⟨rfl, -⟩ := alike
          simp only [gets name]
          cases get sealing.toCrypto
              ⟨salt, cipher, (name, sealed) :: rights⟩ name with
          | error reason => exact .inl ⟨reason, rfl, rfl⟩
          | ok _ => exact .inr ⟨rfl, rfl⟩
    rcases ends with ⟨reason, failed, failedToo⟩ | ⟨opened, openedToo⟩
    · exact .inl ⟨reason, Handle.openAt_of_error failed,
        Handle.openAt_of_error failedToo⟩
    · obtain ⟨left, opens, lefts⟩ := Handle.openAt_of_ok opened
      obtain ⟨right, opensToo, rights⟩ := Handle.openAt_of_ok openedToo
      refine .inr ⟨left, right, opens, opensToo, .inr ?_⟩
      rw [lefts, rights]
      exact ⟨rfl, rfl, rfl, same⟩

/-- What the handle reads once a call has changed its records. -/
theorem get_of_attempted (lawful : sealing.Lawful)
    {handle changed fresh : Handle Cipher} {host : Host}
    {file : Option Bytes} {mutation : Mutation}
    (reached : handle.attempted sealing host file mutation = some changed)
    (refreshed : handle.refreshed host file = .ok fresh) :
    changed.get sealing.toCrypto mutation.key = .ok mutation.value? ∧
      ∀ other, other ≠ mutation.key →
        changed.get sealing.toCrypto other =
          fresh.get sealing.toCrypto other := by
  obtain ⟨-, freshCipher, -⟩ := Handle.refreshed_eq_ok refreshed
  cases mutation with
  | put key value =>
    simp only [Handle.attempted, refreshed] at reached
    split at reached
    · rename_i nonce ciphertext found _ sealed again
      cases again
      cases reached
      constructor
      · have record : (fresh.insert key nonce ciphertext).record? key =
            some ⟨nonce.1, ciphertext⟩ :=
          recordOf_insertRecord_same key _ fresh.records
        have opened := lawful.opens (Handle.sealValue_eq_ok sealed)
        rw [← freshCipher] at opened
        have opens : sealing.decrypt
            (fresh.insert key nonce ciphertext).cipher nonce.1 ciphertext
              (toUtf8 key) = some (toUtf8 value) := opened
        simp only [Mutation.key, Mutation.value?, get, record, opens,
          fromUtf8_toUtf8]
      · intro other different
        exact get_congr rfl (recordOf_insertRecord_other different _ _)
    · cases reached
  | remove key =>
    simp only [Handle.attempted, refreshed] at reached
    split at reached
    · cases reached
      constructor
      · have record : (fresh.erase key).record? key = none :=
          recordOf_removeRecord_same key fresh.records
        simp only [Mutation.key, Mutation.value?, get, record]
      · intro other different
        exact get_congr rfl (recordOf_removeRecord_other different _)
    · cases reached

end Vault

end Sharerr
