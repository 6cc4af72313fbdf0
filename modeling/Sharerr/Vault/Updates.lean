import Sharerr.Vault.Handles

/-!
# What reaches the vault file

The file is compared with one map to which exactly the puts and removals that
returned without an error are applied, in the order their locked sections ran.
The two agree as long as no write fails before the file exists: from then on
every mutation starts from what is on disk, but until then it starts from what
the handle holds, and the handle keeps what a failed call put into it.
-/

namespace Sharerr

namespace Vault

/-- The records of the file. -/
def content : Option Bytes → Except VaultError Records
  | none => .ok []
  | some raw => (parse raw).map (·.2)

namespace World

variable {Cipher : Type} (sealing : Sealing Cipher)

/-- The map after a call, were its mutation applied to it exactly when the
call returns without an error. -/
def applied (world : World Cipher) (op : Op) (records : Records) : Records :=
  match op with
  | .mutate index host mutation =>
    match world.handles index with
    | none => records
    | some handle =>
      match (handle.mutate sealing host world.file mutation).answer with
      | .ok _ => handle.change sealing host mutation records
      | .error _ => records
  | _ => records

def appliedAll (world : World Cipher) : List Op → Records → Records
  | [], records => records
  | op :: ops, records =>
    appliedAll (world.step sealing op).1 ops
      (world.applied sealing op records)

/-- The call gets as far as writing a file that is not there, and cannot
write it. -/
def FirstWriteFails (world : World Cipher) : Op → Prop
  | .mutate index host mutation =>
    world.file = none ∧
      ∃ changed ∈ (world.handles index).bind
          fun handle => handle.attempted sealing host none mutation,
        (changed.persist host).toOption = none
  | _ => False

instance (world : World Cipher) :
    ∀ op, Decidable (world.FirstWriteFails sealing op)
  | .open _ _ _ => inferInstanceAs (Decidable False)
  | .get _ _ => inferInstanceAs (Decidable False)
  | .mutate index host mutation =>
    inferInstanceAs (Decidable (world.file = none ∧
      ∃ changed ∈ (world.handles index).bind
          fun handle => handle.attempted sealing host none mutation,
        (changed.persist host).toOption = none))

/-- While there is no file, no handle holds anything. -/
def Clean (world : World Cipher) : Prop :=
  world.file = none → ∀ index handle,
    world.handles index = some handle → handle.records = []

variable {sealing}

theorem clean_start (file : Option Bytes) :
    (World.start file : World Cipher).Clean := by
  intro _ index handle opened
  cases opened

variable {handle : Handle Cipher} {index : Nat} {world : World Cipher}
  {host : Host} {mutation : Mutation}

theorem Clean.withHandle (clean : world.Clean)
    (empty : world.file = none → handle.records = []) :
    (world.withHandle index handle).Clean := by
  intro absent other opened found
  simp only [World.withHandle] at found
  by_cases same : other = index
  · subst same
    rw [Function.update_self] at found
    cases found
    exact empty absent
  · rw [Function.update_of_ne same] at found
    exact clean absent other opened found

theorem Clean.content_of_refreshed {fresh : Handle Cipher} (clean : world.Clean)
    (found : world.handles index = some handle)
    (refreshed : handle.refreshed host world.file = .ok fresh) :
    content world.file = .ok fresh.records := by
  obtain ⟨-, -, ⟨absent, rfl⟩ | ⟨raw, present, parsed⟩⟩ :=
    Handle.refreshed_eq_ok refreshed
  · rw [absent, content, clean absent index fresh found]
  · rw [present, content, parsed]
    rfl

theorem applied_of_ok {answer : Answer}
    (found : world.handles index = some handle)
    (done : (handle.mutate sealing host world.file mutation).answer =
      .ok answer) :
    world.applied sealing (.mutate index host mutation) =
      handle.change sealing host mutation := by
  funext records
  simp only [applied, found, done]

theorem applied_of_error {reason : VaultError}
    (found : world.handles index = some handle)
    (failed : (handle.mutate sealing host world.file mutation).answer =
      .error reason) :
    world.applied sealing (.mutate index host mutation) = id := by
  funext records
  simp only [applied, found, failed, id]

theorem map_id_content (file : Option Bytes) :
    (content file).map id = content file := by
  cases content file <;> rfl

theorem mutate_applied (clean : world.Clean)
    (found : world.handles index = some handle)
    (saved : ¬ world.FirstWriteFails sealing (.mutate index host mutation)) :
    let op := Op.mutate index host mutation
    (world.step sealing op).1.Clean ∧
      content (world.step sealing op).1.file =
        (content world.file).map (world.applied sealing op) := by
  simp only [step, found]
  cases reached : handle.attempted sealing host world.file mutation with
  | none =>
    rcases Handle.mutate_of_not_attempted reached with
      ⟨reason, failed⟩ | ⟨fresh, refreshed, removal, gone, nothing⟩
    · rw [applied_of_error found (by rw [failed]), map_id_content, failed]
      exact ⟨clean.withHandle fun absent =>
        clean absent index handle found, rfl⟩
    · rw [applied_of_ok found (by rw [nothing]), nothing]
      have held := clean.content_of_refreshed found refreshed
      constructor
      · refine clean.withHandle fun absent => ?_
        rw [absent] at held
        exact (Except.ok.inj held).symm
      · cases mutation with
        | put key value => cases removal
        | remove key =>
          rw [held]
          exact congrArg Except.ok (removeRecord_of_absent gone).symm
  | some changed =>
    obtain ⟨answer, ends⟩ := Handle.mutate_of_attempted reached
    obtain ⟨fresh, refreshed, -, -, records⟩ :=
      Handle.attempted_eq_some reached
    have held := clean.content_of_refreshed found refreshed
    cases persisted : changed.persist host with
    | error reason =>
      have failed : handle.mutate sealing host world.file mutation =
          ⟨changed, world.file, .error reason⟩ := by
        simp only [ends, Handle.written, persisted]
      have present : world.file ≠ none := by
        intro absent
        rw [absent] at reached
        refine saved ⟨absent, changed, ?_, ?_⟩
        · rw [found]
          exact reached
        · rw [persisted]
          rfl
      rw [applied_of_error found (by rw [failed]), map_id_content, failed]
      exact ⟨fun absent => absurd absent present, rfl⟩
    | ok bytes =>
      have done : handle.mutate sealing host world.file mutation =
          ⟨changed, some bytes, .ok answer⟩ := by
        simp only [ends, Handle.written, persisted]
      rw [applied_of_ok found (by rw [done]), done, held, content,
        Handle.parse_of_persist persisted]
      refine ⟨?_, congrArg Except.ok records⟩
      intro absent
      cases absent

theorem step_applied {op : Op} (clean : world.Clean)
    (saved : ¬ world.FirstWriteFails sealing op) :
    (world.step sealing op).1.Clean ∧
      content (world.step sealing op).1.file =
        (content world.file).map (world.applied sealing op) := by
  have kept := (map_id_content world.file).symm
  cases op with
  | «open» index master host =>
    simp only [step]
    cases opened : Handle.openAt sealing master host world.file with
    | error reason => exact ⟨clean, kept⟩
    | ok handle =>
      refine ⟨clean.withHandle fun absent => ?_, kept⟩
      obtain ⟨-, ⟨-, empty⟩ | ⟨raw, present, -⟩⟩ :=
        Handle.openAt_eq_ok opened
      · exact empty
      · rw [absent] at present
        cases present
  | get index key => exact ⟨clean, kept⟩
  | mutate index host mutation =>
    cases found : world.handles index with
    | none =>
      have nothing : world.applied sealing (.mutate index host mutation) =
          id := by
        funext records
        simp only [applied, found, id]
      rw [nothing]
      simp only [step, found]
      exact ⟨clean, kept⟩
    | some handle => exact mutate_applied clean found saved

theorem run_applied {ops : List Op} (clean : world.Clean)
    (saved : Throughout sealing
      (fun world op => ¬ world.FirstWriteFails sealing op) world ops) :
    content (world.run sealing ops).file =
      (content world.file).map (world.appliedAll sealing ops) := by
  induction ops generalizing world with
  | nil =>
    exact (map_id_content world.file).symm
  | cons op ops ih =>
    obtain ⟨first, rest⟩ := saved
    obtain ⟨cleanAfter, contentAfter⟩ := step_applied clean first
    simp only [run]
    rw [ih cleanAfter rest, contentAfter]
    cases content world.file <;> rfl

theorem file_of_other_salt {raw salt : Bytes} {records : Records}
    (found : world.handles index = some handle)
    (present : world.file = some raw) (parsed : parse raw = .ok (salt, records))
    (other : salt ≠ handle.salt) (host : Host) (mutation : Mutation) :
    (world.step sealing (.mutate index host mutation)).1.file =
      world.file := by
  have refused : ∀ fresh, handle.refreshed host world.file ≠ .ok fresh := by
    intro fresh refreshed
    obtain ⟨-, -, ⟨absent, -⟩ | ⟨again, held, reparsed⟩⟩ :=
      Handle.refreshed_eq_ok refreshed
    · rw [present] at absent
      cases absent
    · rw [present] at held
      cases held
      rw [parsed] at reparsed
      cases reparsed
      exact other rfl
  have stopped : handle.attempted sealing host world.file mutation = none := by
    cases reached : handle.attempted sealing host world.file mutation with
    | none => rfl
    | some changed =>
      obtain ⟨fresh, refreshed, -⟩ := Handle.attempted_eq_some reached
      exact absurd refreshed (refused fresh)
  simp only [step, found]
  rcases Handle.mutate_of_not_attempted stopped with
    ⟨reason, failed⟩ | ⟨fresh, refreshed, -⟩
  · rw [failed]
  · exact absurd refreshed (refused fresh)

/-- In every run in which no first write fails, the file holds what the calls
that returned without an error make of its initial content; and in any state
a handle whose salt is not the file's leaves it alone. -/
theorem content_is_applied {file : Option Bytes} {ops : List Op}
    (saved : Throughout sealing
      (fun world op => ¬ world.FirstWriteFails sealing op)
      (World.start file) ops) :
    content ((World.start file).run sealing ops).file =
        (content file).map ((World.start file).appliedAll sealing ops) ∧
      ∀ (world : World Cipher) index handle raw salt records,
        world.handles index = some handle → world.file = some raw →
        parse raw = .ok (salt, records) → salt ≠ handle.salt →
        ∀ host mutation,
          (world.step sealing (.mutate index host mutation)).1.file =
            world.file := by
  refine ⟨run_applied (clean_start file) saved, ?_⟩
  intro world index handle raw salt records found present parsed other
  exact file_of_other_salt found present parsed other

/-! Two handles are opened before the file exists.  The first write settles
its salt, so the second handle is turned away until it is opened again. -/

def goodHost (salt nonce : UInt8) : Host where
  salt := .ok ⟨List.replicate saltLen salt, List.length_replicate⟩
  nonce := .ok ⟨List.replicate nonceLen nonce, List.length_replicate⟩
  lock := .ok ()
  read := .ok ()
  write := .ok ()

def fullDisk : Host :=
  { goodHost 1 1 with
    write := .error (.io "vault.tmp" "No space left on device") }

def twoHandles : List Op :=
  [.open 0 "master" (goodHost 1 0), .open 1 "master" (goodHost 2 0),
    .mutate 0 (goodHost 0 1) (.put "sonarr.api_key" "abc"),
    .mutate 1 (goodHost 0 2) (.put "radarr.api_key" "def"),
    .open 1 "master" (goodHost 2 0),
    .mutate 0 fullDisk (.put "lidarr.api_key" "ghi"),
    .mutate 1 (goodHost 0 3) (.put "radarr.api_key" "def")]

theorem two_handles_applied :
    content ((World.start none).run tagging twoHandles).file =
      (content none).map ((World.start none).appliedAll tagging twoHandles) :=
  (content_is_applied (by decide +kernel)).1

/-- The first write finds the disk full, the second does not. -/
def failedFirst : List Op :=
  [.open 0 "master" (goodHost 1 0),
    .mutate 0 fullDisk (.put "sonarr.api_key" "abc"),
    .mutate 0 (goodHost 0 2) (.put "radarr.api_key" "def")]

/-- The second put writes the value whose put was reported as failed. -/
theorem failed_put_is_written :
    ¬ content ((World.start none).run tagging failedFirst).file =
      (content none).map
        ((World.start none).appliedAll tagging failedFirst) := by
  intro same
  have names :=
    congrArg (fun held => held.toOption.map (List.map Prod.fst)) same
  revert names
  decide +kernel

end World

end Vault

end Sharerr
