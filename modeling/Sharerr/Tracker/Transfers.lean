import Sharerr.Friends.Store
import Sharerr.Tracker.Swarms

/-!
# What the announces say has moved

An announce is answered first and its delta recorded afterwards, in whatever
order the handlers get to the database.  Every delta is clamped to the range of
a column, the sum in the column is not: the readers of `peers` and of
`transfer_totals` work as long as the deltas recorded so far add up to an
`i64`.
-/

namespace Sharerr

namespace Announce

open Friends (Store Columns Friend TransferTotals)

/-- A delta on its way to the store, or in it, with the friend it is
attributed to. -/
structure Recording where
  friend : Option Nat
  transfer : Transfer
deriving DecidableEq, Repr

/-- The announces not recorded yet are `pending`; `recorded` is the history
of what the store was given, each delta with the friend whose row took it. -/
structure Tracked where
  swarms : Swarms
  pending : List Recording
  store : Store
  recorded : List Recording

inductive Happening where
  | arrives (arrival : Arrival)
  /-- `record_transfer` for one of the pending announces. -/
  | recorded (index : Nat) (now : Int)
  /-- The same, with the transaction failing. -/
  | lost (index : Nat)
  | created (label keyHash : String) (scope : PeerScope) (now : Int)
  | revoked (id : Nat) (now : Int)
  | deleted (id : Nat)
  /-- The process starts anew, with no swarms. -/
  | restarted

namespace Tracked

def start : Tracked := ⟨Swarms.start, [], Store.empty, []⟩

/-- The friend whose row takes a delta, if it is still there. -/
def taker (tracked : Tracked) (recording : Recording) : Option Nat :=
  recording.friend.filter fun id => (tracked.store.peers.row? id).isSome

/-- An announce is counted at once and written to the store later, if ever. -/
def step (tracked : Tracked) : Happening → Tracked
  | .arrives arrival =>
    let (answer, swarms) := handleAnnounce tracked.swarms arrival
    match answer, arrival.admitted with
    | .ok response, .ok (_, auth) =>
      { tracked with
        swarms
        pending := tracked.pending ++
          [⟨auth.attributedTo, response.transferred⟩] }
    | _, _ => { tracked with swarms }
  | .recorded index now =>
    match tracked.pending[index]? with
    | none => tracked
    | some recording =>
      { tracked with
        pending := tracked.pending.eraseIdx index
        store := tracked.store.recordTransfer recording.friend
          recording.transfer.downloaded recording.transfer.uploaded now
        recorded := tracked.recorded ++
          [⟨tracked.taker recording, recording.transfer⟩] }
  | .lost index => { tracked with pending := tracked.pending.eraseIdx index }
  | .created label keyHash scope now =>
    { tracked with
      store := (tracked.store.createPeer label keyHash scope now).2 }
  | .revoked id now => { tracked with store := tracked.store.revokePeer id now }
  | .deleted id => { tracked with store := tracked.store.deletePeer id }
  | .restarted => { tracked with swarms := Swarms.start, pending := [] }

def run (happenings : List Happening) : Tracked :=
  happenings.foldl step start

theorem run_append (happenings : List Happening) (happening : Happening) :
    run (happenings ++ [happening]) = (run happenings).step happening := by
  simp [run]

end Tracked

/-- One of the two counters of a transfer. -/
abbrev Direction := Transfer → Nat

/-- The deltas as they are bound, added without a bound. -/
def counted (direction : Direction) (recorded : List Recording) : Nat :=
  (recorded.map fun recording =>
    Rust.saturatingI64 (direction recording.transfer)).sum

/-- The deltas added as `saturating_add` adds. -/
def saturatingSum (direction : Direction) (recorded : List Recording) : Int :=
  recorded.foldl
    (fun total recording => Rust.saturatingAdd total
      (Rust.saturatingI64 (direction recording.transfer)))
    0

/-- The deltas the row of a friend has taken. -/
def takenBy (id : Nat) (recorded : List Recording) : List Recording :=
  recorded.filter fun recording => recording.friend = some id

variable {direction : Direction} {recorded : List Recording}
  {recording : Recording} {id : Nat}

theorem counted_append :
    counted direction (recorded ++ [recording]) =
      counted direction recorded +
        Rust.saturatingI64 (direction recording.transfer) := by
  simp [counted]

theorem saturatingSum_eq :
    saturatingSum direction recorded =
      min Rust.i64Max (counted direction recorded) := by
  induction recorded using List.reverseRecOn with
  | nil => rfl
  | append_singleton recorded recording ih =>
    have max : Rust.i64Max = 9223372036854775807 := rfl
    have min : Rust.i64Min = -9223372036854775808 := rfl
    rw [counted_append, saturatingSum, List.foldl_append]
    change Rust.saturatingAdd (saturatingSum direction recorded) _ = _
    rw [ih, Rust.saturatingAdd]
    push_cast
    omega

theorem takenBy_append_own (own : recording.friend = some id) :
    takenBy id (recorded ++ [recording]) =
      takenBy id recorded ++ [recording] := by
  simp [takenBy, own]

theorem takenBy_append_other (other : recording.friend ≠ some id) :
    takenBy id (recorded ++ [recording]) = takenBy id recorded := by
  simp [takenBy, other]

theorem counted_takenBy_le :
    counted direction (takenBy id recorded) ≤ counted direction recorded := by
  induction recorded using List.reverseRecOn with
  | nil => exact Nat.zero_le _
  | append_singleton recorded recording ih =>
    rw [counted_append]
    by_cases own : recording.friend = some id
    · rw [takenBy_append_own own, counted_append]
      omega
    · rw [takenBy_append_other own]
      omega

def Shows (friend : Friend) (recorded : List Recording) : Prop :=
  friend.downloaded =
      saturatingSum (·.downloaded) (takenBy friend.id recorded) ∧
    friend.uploaded = saturatingSum (·.uploaded) (takenBy friend.id recorded)

namespace Tracked

/-- Every reader succeeds, with the saturating sums of what was recorded. -/
structure Readable (tracked : Tracked) : Prop where
  listPeers : ∃ friends, tracked.store.listPeers = .ok friends ∧
    ∀ friend ∈ friends, Shows friend tracked.recorded
  activePeers : ∃ friends, tracked.store.activePeers = .ok friends ∧
    ∀ friend ∈ friends, Shows friend tracked.recorded
  peerByKeyHash : ∀ keyHash, ∃ found,
    tracked.store.peerByKeyHash keyHash = .ok found ∧
      ∀ friend ∈ found, Shows friend tracked.recorded
  transferTotals : ∃ totals, tracked.store.transferTotals = .ok totals ∧
    totals.downloaded = saturatingSum (·.downloaded) tracked.recorded ∧
      totals.uploaded = saturatingSum (·.uploaded) tracked.recorded

/-- What was recorded adds up to an `i64` both ways. -/
def Fits (recorded : List Recording) : Prop :=
  (counted (·.downloaded) recorded : Int) ≤ Rust.i64Max ∧
    (counted (·.uploaded) recorded : Int) ≤ Rust.i64Max

/-- The deltas an event is about to record, if any, still fit beside those
recorded before. -/
def Leaves (tracked : Tracked) : Happening → Prop
  | .recorded index _ => ∀ recording, tracked.pending[index]? = some recording →
      Fits (tracked.recorded ++ [recording])
  | _ => True

/-- The columns of the totals and of every row count what was recorded. -/
structure Booked (tracked : Tracked) : Prop where
  downloaded : Sqlite.Counts (counted (·.downloaded) tracked.recorded)
    tracked.store.totals.downloaded
  uploaded : Sqlite.Counts (counted (·.uploaded) tracked.recorded)
    tracked.store.totals.uploaded
  rows : ∀ id, (tracked.store.peers.row? id).isSome →
    Sqlite.Counts (counted (·.downloaded) (takenBy id tracked.recorded))
        (tracked.store.columns id).downloaded ∧
      Sqlite.Counts (counted (·.uploaded) (takenBy id tracked.recorded))
        (tracked.store.columns id).uploaded
  /-- No delta was taken by a row not inserted yet. -/
  known : ∀ id, tracked.store.peers.nextId ≤ id →
    takenBy id tracked.recorded = []

variable {tracked : Tracked}

theorem booked_start : Booked start where
  downloaded := rfl
  uploaded := rfl
  rows := by
    intro id found
    cases found
  known := fun _ _ => rfl

theorem counts_added {total delta : Nat} {number : Sqlite.Number}
    (counts : Sqlite.Counts total number) :
    Sqlite.Counts (total + Rust.saturatingI64 delta)
      (Store.added number delta) := by
  apply counts.add
  have max : Rust.i64Max = 9223372036854775807 := rfl
  unfold Rust.saturatingI64
  omega

/-- A statement that leaves the counters alone, and names no new rows. -/
theorem Booked.of_store (booked : tracked.Booked) (store : Store)
    (totals : store.totals = tracked.store.totals)
    (columns : store.columns = tracked.store.columns)
    (rows : ∀ id, (store.peers.row? id).isSome →
      (tracked.store.peers.row? id).isSome)
    (nextId : tracked.store.peers.nextId ≤ store.peers.nextId) :
    { tracked with store }.Booked where
  downloaded := by
    rw [totals]
    exact booked.downloaded
  uploaded := by
    rw [totals]
    exact booked.uploaded
  rows := by
    intro id found
    rw [columns]
    exact booked.rows id (rows id found)
  known := fun id fresh => booked.known id (nextId.trans fresh)

theorem Booked.step_created (booked : tracked.Booked) (label keyHash : String)
    (scope : PeerScope) (now : Int) :
    (tracked.step (.created label keyHash scope now)).Booked := by
  rw [step]
  rcases tracked.store.createPeer_cases label keyHash scope now with
    ⟨same, -⟩ | ⟨trimmed, peer, peers, -, inserted, created⟩
  · rw [same]
    exact booked
  · obtain ⟨fresh, -, -, next, -⟩ := PeerTable.insert_eq_some inserted
    rw [created]
    refine ⟨booked.downloaded, booked.uploaded, ?_, ?_⟩
    · intro id found
      by_cases new : id = peer.id
      · subst new
        simp only [Store.withColumns, Function.update_self]
        rw [booked.known peer.id (by omega)]
        exact ⟨rfl, rfl⟩
      · have old : id < tracked.store.peers.nextId := by
          have below : id < peers.nextId :=
            PeerTable.row?_lt_nextId (Option.eq_some_of_isSome found)
          omega
        simp only [Store.withColumns, Function.update_of_ne new]
        apply booked.rows id
        rw [← PeerTable.row?_insert_old inserted old]
        exact found
    · intro id unused
      have above : peers.nextId ≤ id := unused
      exact booked.known id (by omega)

/-- A row takes exactly the deltas attributed to it while it is there. -/
theorem taker_eq_iff (found : (tracked.store.peers.row? id).isSome)
    (recording : Recording) :
    tracked.taker recording = some id ↔ recording.friend = some id := by
  unfold taker
  rw [Option.filter_eq_some_iff]
  constructor
  · intro taken
    exact taken.1
  · intro attributed
    exact ⟨attributed, found⟩

theorem Booked.known_append (booked : tracked.Booked) (recording : Recording)
    (fresh : tracked.store.peers.nextId ≤ id) :
    takenBy id (tracked.recorded ++
      [⟨tracked.taker recording, recording.transfer⟩]) = [] := by
  rw [takenBy_append_other, booked.known id fresh]
  intro taken
  have present := (Option.filter_eq_some_iff.mp taken).2
  rw [PeerTable.row?_eq_none_of_nextId_le fresh] at present
  cases present

theorem counted_append_nothing (nothing : direction recording.transfer = 0) :
    counted direction (recorded ++ [recording]) =
      counted direction recorded := by
  rw [counted_append, nothing]
  rfl

theorem counted_takenBy_append_nothing
    (nothing : direction recording.transfer = 0) :
    counted direction (takenBy id (recorded ++ [recording])) =
      counted direction (takenBy id recorded) := by
  by_cases own : recording.friend = some id
  · rw [takenBy_append_own own, counted_append_nothing nothing]
  · rw [takenBy_append_other own]

theorem Booked.step_recorded (booked : tracked.Booked) (index : Nat)
    (now : Int) : (tracked.step (.recorded index now)).Booked := by
  rw [step]
  cases tracked.pending[index]? with
  | none => exact booked
  | some recording =>
    obtain ⟨friend, transfer⟩ := recording
    have peers := tracked.store.recordTransfer_peers friend
      transfer.downloaded transfer.uploaded now
    by_cases nothing : transfer.downloaded = 0 ∧ transfer.uploaded = 0
    · -- nothing is written, and nothing is added to what was recorded
      obtain ⟨noneDown, noneUp⟩ := nothing
      simp only [noneDown, noneUp, Store.recordTransfer_nothing]
      refine ⟨?_, ?_, ?_, ?_⟩
      · rw [counted_append_nothing noneDown]
        exact booked.downloaded
      · rw [counted_append_nothing noneUp]
        exact booked.uploaded
      · intro id found
        rw [counted_takenBy_append_nothing noneDown,
          counted_takenBy_append_nothing noneUp]
        exact booked.rows id found
      · intro id fresh
        exact booked.known_append ⟨friend, transfer⟩ fresh
    · have totals := tracked.store.recordTransfer_totals friend now nothing
      refine ⟨?_, ?_, ?_, ?_⟩
      · simp only [totals, counted_append]
        exact counts_added booked.downloaded
      · simp only [totals, counted_append]
        exact counts_added booked.uploaded
      · intro id found
        rw [peers] at found
        obtain ⟨down, up⟩ := booked.rows id found
        have taken := tracked.taker_eq_iff found ⟨friend, transfer⟩
        by_cases own : friend = some id
        · rw [takenBy_append_own (taken.mpr own), counted_append,
            counted_append]
          subst own
          rw [Store.recordTransfer_columns_own nothing found]
          exact ⟨counts_added down, counts_added up⟩
        · rw [takenBy_append_other (mt taken.mp own),
            Store.recordTransfer_columns_other own]
          exact ⟨down, up⟩
      · intro id fresh
        rw [peers] at fresh
        exact booked.known_append ⟨friend, transfer⟩ fresh

theorem Booked.step (booked : tracked.Booked) (happening : Happening) :
    (tracked.step happening).Booked := by
  cases happening with
  | arrives arrival =>
    simp only [Tracked.step]
    split
    · exact ⟨booked.downloaded, booked.uploaded, booked.rows, booked.known⟩
    · exact ⟨booked.downloaded, booked.uploaded, booked.rows, booked.known⟩
  | recorded index now => exact booked.step_recorded index now
  | lost index =>
    exact ⟨booked.downloaded, booked.uploaded, booked.rows, booked.known⟩
  | created label keyHash scope now =>
    exact booked.step_created label keyHash scope now
  | revoked id now =>
    apply booked.of_store (tracked.store.revokePeer id now) rfl rfl _
      (le_refl _)
    intro other found
    rw [Store.revokePeer, PeerTable.row?_update] at found
    split at found
    · simpa using found
    · exact found
  | deleted id =>
    apply booked.of_store (tracked.store.deletePeer id) rfl rfl _ (le_refl _)
    intro other found
    rw [Store.deletePeer, PeerTable.row?_delete] at found
    split at found
    · cases found
    · exact found
  | restarted =>
    exact ⟨booked.downloaded, booked.uploaded, booked.rows, booked.known⟩

theorem booked_run (happenings : List Happening) :
    (run happenings).Booked := by
  induction happenings using List.reverseRecOn with
  | nil => exact booked_start
  | append_singleton happenings happening ih =>
    rw [run_append]
    exact ih.step happening

theorem shows_of_columns {counter : Sqlite.Number} {value : Int}
    (counts : Sqlite.Counts (counted direction recorded) counter)
    (read : counter.decodeI64 = some value) :
    value = saturatingSum direction recorded := by
  obtain ⟨fits, rfl⟩ := counts.decode_iff.mp read
  rw [saturatingSum_eq]
  omega

theorem Booked.shows (booked : tracked.Booked) {row : PeerRow}
    {friend : Friend} (found : tracked.store.peers.row? row.id = some row)
    (read : Friends.rowToPeer row.toPeer (tracked.store.columns row.id) =
      .ok friend) : Shows friend tracked.recorded := by
  obtain ⟨same, down, up⟩ := Friends.rowToPeer_eq_ok read
  obtain ⟨downs, ups⟩ := booked.rows row.id (Option.isSome_of_eq_some found)
  have named : friend.id = row.id := congrArg Peer.id same
  unfold Shows
  rw [named]
  exact ⟨shows_of_columns downs down, shows_of_columns ups up⟩

theorem decodes_of_fits {counter : Sqlite.Number}
    (counts : Sqlite.Counts (counted direction recorded) counter)
    (fits : (counted direction recorded : Int) ≤ Rust.i64Max) :
    ∃ value, counter.decodeI64 = some value :=
  ⟨_, counts.decode_iff.mpr ⟨fits, rfl⟩⟩

theorem Booked.row_isOk (booked : tracked.Booked) (fits : Fits tracked.recorded)
    {row : PeerRow} (found : tracked.store.peers.row? row.id = some row) :
    ∃ friend, Friends.rowToPeer row.toPeer (tracked.store.columns row.id) =
      .ok friend := by
  obtain ⟨downs, ups⟩ := booked.rows row.id (Option.isSome_of_eq_some found)
  obtain ⟨down, readDown⟩ := decodes_of_fits downs
    ((Int.ofNat_le.mpr counted_takenBy_le).trans fits.1)
  obtain ⟨up, readUp⟩ := decodes_of_fits ups
    ((Int.ofNat_le.mpr counted_takenBy_le).trans fits.2)
  exact Friends.rowToPeer_isOk readDown readUp

/-- A list of rows that are there decodes, and shows what they have taken. -/
theorem Booked.decoded (booked : tracked.Booked) (fits : Fits tracked.recorded)
    {peers : List Sharerr.Peer}
    (there : ∀ peer ∈ peers, peer ∈ tracked.store.peers.listPeers) :
    ∃ friends, tracked.store.decoded peers = .ok friends ∧
      ∀ friend ∈ friends, Shows friend tracked.recorded := by
  obtain ⟨friends, read⟩ := Store.decoded_isOk_iff.mpr (by
    intro peer member
    obtain ⟨row, found, rfl⟩ :=
      PeerTable.row?_of_mem_listPeers (there peer member)
    exact booked.row_isOk fits found)
  refine ⟨friends, read, ?_⟩
  intro friend member
  obtain ⟨peer, among, decodes⟩ := Store.mem_of_decoded read member
  obtain ⟨row, found, rfl⟩ := PeerTable.row?_of_mem_listPeers (there peer among)
  exact booked.shows found decodes

theorem Booked.readable_iff (booked : tracked.Booked) :
    tracked.Readable ↔ Fits tracked.recorded := by
  constructor
  · intro readable
    obtain ⟨totals, read, -, -⟩ := readable.transferTotals
    obtain ⟨down, readDown, rest⟩ := Rust.bind_eq_ok read
    obtain ⟨up, readUp, -⟩ := Rust.bind_eq_ok rest
    exact ⟨(booked.downloaded.decode_iff.mp
        (Friends.tryGetI64_eq_ok_iff.mp readDown)).1,
      (booked.uploaded.decode_iff.mp
        (Friends.tryGetI64_eq_ok_iff.mp readUp)).1⟩
  · intro fits
    refine ⟨booked.decoded fits fun _ listed => listed,
      booked.decoded fits fun _ active => List.mem_of_mem_filter active,
      ?_, ?_⟩
    · intro keyHash
      unfold Store.peerByKeyHash
      split
      · exact ⟨none, rfl, by simp⟩
      · rename_i row holds
        have found : tracked.store.peers.row? row.id = some row :=
          PeerTable.row?_eq_some_iff.mpr
            ⟨List.mem_of_find?_eq_some holds, rfl⟩
        obtain ⟨friend, read⟩ := booked.row_isOk fits found
        refine ⟨some friend, by rw [read]; rfl, ?_⟩
        intro other same
        cases same
        exact booked.shows found read
    · obtain ⟨down, readDown⟩ := decodes_of_fits booked.downloaded fits.1
      obtain ⟨up, readUp⟩ := decodes_of_fits booked.uploaded fits.2
      refine ⟨⟨down, up, tracked.store.totals.updatedAt⟩, ?_,
        shows_of_columns booked.downloaded readDown,
        shows_of_columns booked.uploaded readUp⟩
      rw [Store.transferTotals, Friends.tryGetI64_eq_ok_iff.mpr readDown,
        Friends.tryGetI64_eq_ok_iff.mpr readUp]
      rfl

theorem fits_step_iff (tracked : Tracked) (happening : Happening) :
    Fits (tracked.step happening).recorded ↔
      Fits tracked.recorded ∧ tracked.Leaves happening := by
  cases happening with
  | recorded index now =>
    cases pending : tracked.pending[index]? with
    | none => simp [step, Leaves, pending]
    | some recording =>
      simp only [step, Leaves, pending, Fits, counted_append,
        Option.some.injEq, forall_eq']
      omega
  | arrives arrival =>
    have same : (tracked.step (.arrives arrival)).recorded =
        tracked.recorded := by
      simp only [step]
      split
      · rfl
      · rfl
    simp [same, Leaves]
  | lost index => simp [step, Leaves]
  | created label keyHash scope now => simp [step, Leaves]
  | revoked id now => simp [step, Leaves]
  | deleted id => simp [step, Leaves]
  | restarted => simp [step, Leaves]

/-- Throughout a run the readers work, each with the saturating sums of what
was recorded, if and only if every recording leaves sums an `i64` can hold. -/
theorem readable_throughout_iff (happenings : List Happening) :
    (∀ past later, happenings = past ++ later → (run past).Readable) ↔
      ∀ past happening later, happenings = past ++ happening :: later →
        (run past).Leaves happening := by
  constructor
  · intro readable past happening later whole
    have after : (run (past ++ [happening])).Readable :=
      readable (past ++ [happening]) later (by simp [whole])
    have fits := (booked_run _).readable_iff.mp after
    rw [run_append, fits_step_iff] at fits
    exact fits.2
  · intro leaves past later whole
    rw [(booked_run past).readable_iff]
    induction past using List.reverseRecOn generalizing later with
    | nil => exact ⟨by decide, by decide⟩
    | append_singleton past happening ih =>
      have split : happenings = past ++ happening :: later := by
        simp [whole]
      rw [run_append, fits_step_iff]
      exact ⟨ih _ split, leaves past happening later split⟩

def samKeyHash : String := "5f"

/-- An announce with the friend's own token. -/
def announced (downloaded : String) : Happening :=
  .arrives
    { query := Vault.toUtf8
        ("info_hash=aaaaaaaaaaaaaaaaaaaa&peer_id=bbbbbbbbbbbbbbbbbbbb" ++
          "&port=6881&downloaded=" ++ downloaded)
      remote := .v4 0xCB007109#32
      auth := .ok { Tracker.TokenAuth.default with attributedTo := some 1 }
      served := fun _ => true
      now := 0
      iteration := asListed }

/-- One client of one friend, its counter climbing to `2 ^ 63 - 1` and to
`2 ^ 64 - 1`. -/
def climbing : List Happening :=
  [.created "sam" samKeyHash .all 0,
    announced "0", .recorded 0 1,
    announced "9223372036854775807", .recorded 0 2,
    announced "18446744073709551615", .recorded 0 3]

/-- The friends are not listed any more, nor is the friend let in. -/
theorem friends_unreadable :
    ¬ ∀ past later, climbing = past ++ later → (run past).Readable := by
  intro readable
  have last := (readable climbing [] (by simp)).listPeers
  have failed : (run climbing).store.listPeers.toOption = none := by
    decide +kernel
  obtain ⟨friends, read, -⟩ := last
  rw [read] at failed
  cases failed

end Tracked

end Announce

end Sharerr
