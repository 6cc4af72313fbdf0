import Sharerr.Gossip.FirstUse

/-!
# Whose row a record is counted for

Nothing keeps two rows from being bound to one key: a friend who was revoked
and invited again has two.  The `by_pubkey` map is collected from the peers
newest first and a later entry replaces an earlier one, so the oldest row with
the key speaks for it.
-/

namespace Sharerr

namespace Gossip

open Process

/-- `row` is the oldest of the rows bound to `pubkey`. -/
def World.Oldest (world : World) (pubkey : String) (row : PeerRow) : Prop :=
  row ∈ world.peers.rows ∧ row.pubkey = some pubkey ∧
    ∀ other ∈ world.peers.rows, other.pubkey = some pubkey →
      PeerTable.newestFirst other.toPeer row.toPeer

/-- How `record` counts after `before`: what the summary of the longer batch
says beyond that of the shorter one, and what it leaves in the row of an
active friend with this key. -/
def Recognised (crates : Crates) (environment : Environment) (world : World)
    (presenterId : Nat) (before : List EndpointRecord)
    (record : EndpointRecord) : Prop :=
  let earlier := environment.ingested crates world presenterId before
  let whole := environment.ingested crates world presenterId
    (before ++ [record])
  ∃ row ∈ world.peers.rows, row.pubkey = some record.pubkey ∧
    row.revokedAt = none ∧
      ((whole.value =
            { earlier.value with accepted := earlier.value.accepted + 1 } ∧
          ((∀ calls, environment.fault calls
              (.setPeerGossipRecord row.id record) = none) →
            ∃ kept, whole.world.peers.row? row.id = some kept ∧
              kept.gossipRecord = some (.signed record))) ∨
        whole.value =
            { earlier.value with stale := earlier.value.stale + 1 } ∧
          ∃ kept raw signedAt,
            earlier.world.peers.row? row.id = some kept ∧
              kept.gossipRecord = some raw ∧
                raw.signedAt = some signedAt ∧ record.signedAt ≤ signedAt)

variable {crates : Crates} {environment : Environment} {world : World}
variable {presenterId : Nat}

theorem oldest_of_byPubkey {pubkey : String} {peer : Peer}
    (found : byPubkey world.peers.listPeers pubkey = some peer) :
    ∃ row, world.Oldest pubkey row ∧ row.toPeer = peer := by
  obtain ⟨listed, bound⟩ := byPubkey_eq_some found
  obtain ⟨row, member, rfl⟩ := PeerTable.mem_listPeers.mp listed
  refine ⟨row, ⟨member, bound, ?_⟩, rfl⟩
  have sorted : (world.peers.listPeers.filterMap fun peer =>
      peer.pubkey.map fun key => (key, peer)).Pairwise
        fun left right => PeerTable.newestFirst left.2 right.2 := by
    apply PeerTable.listPeers_sorted.filterMap
    rintro left right ordered ⟨_, _⟩ first ⟨_, _⟩ second
    obtain ⟨_, -, same⟩ := Option.map_eq_some_iff.mp first
    obtain ⟨_, -, same'⟩ := Option.map_eq_some_iff.mp second
    cases same
    cases same'
    exact ordered
  intro other otherMember otherBound
  apply Rust.relation_of_collected
    (fun peer => total_of PeerTable.newestFirst peer peer |>.elim id id)
    sorted found
  exact List.mem_filterMap.mpr ⟨other.toPeer,
    PeerTable.mem_listPeers.mpr ⟨other, otherMember, rfl⟩, by
      simp [otherBound]⟩

theorem oldest_unique {pubkey : String} {left right : PeerRow}
    (first : world.Oldest pubkey left) (second : world.Oldest pubkey right) :
    left = right := by
  have forth := first.2.2 right second.1 second.2.1
  have back := second.2.2 left first.1 first.2.1
  apply List.inj_on_of_nodup_map world.peers.ids first.1 second.1
  unfold PeerTable.newestFirst at forth back
  omega

/-- Every `signed_at` the loop goes by is that of the record the row
holds. -/
def Remembers (state : IngestState) (now : World) : Prop :=
  ∀ id signedAt, state.storedSignedAt id = some signedAt →
    ∃ row raw, now.peers.row? id = some row ∧ row.gossipRecord = some raw ∧
      raw.signedAt = some signedAt

/-- The row `id` exists. -/
def Present (id : Nat) (now : World) : Prop :=
  (now.peers.row? id).isSome

theorem Present.respond {id : Nat} {now : World} {calls : Nat}
    {request : Call} (ingests : IngestCall request)
    (present : Present id now) :
    Present id (environment.respond calls now request).2 := by
  rw [Present, isSome_row?_respond environment calls now ingests]
  exact present

/-- The calls of an ingest that store no record. -/
def StoresNothing (request : Call) : Prop :=
  IngestCall request ∧
    ∀ id record, request ≠ .setPeerGossipRecord id record

theorem Remembers.respond {state : IngestState} {now : World} {calls : Nat}
    {request : Call} (allowed : StoresNothing request)
    (remembers : Remembers state now) :
    Remembers state (environment.respond calls now request).2 := by
  intro id signedAt stored
  obtain ⟨row, raw, held, kept, read⟩ := remembers id signedAt stored
  rcases row?_respond environment calls now allowed.1 id with
    same | ⟨pubkey, -, -, -, wrote⟩ | ⟨record, asked, -⟩
  · exact ⟨row, raw, same.trans held, kept, read⟩
  · rw [held, Option.map_some] at wrote
    exact ⟨_, raw, wrote, kept, read⟩
  · exact absurd asked (allowed.2 id record)

theorem remembers_readSignedAt :
    Remembers ⟨.default, environment.readSignedAt world⟩ world := by
  intro id signedAt stored
  simp only [Environment.readSignedAt, storedSignedAt] at stored
  cases fault : environment.fault 2
      (.peerGossipRecords (world.peers.listPeers.map (·.id))) with
  | some detail => simp [Environment.respond, fault, failure] at stored
  | none =>
    rw [respond_of_no_fault fault] at stored
    have member := Rust.mem_of_collected_eq_some stored
    obtain ⟨⟨other, raw⟩, listed, read⟩ := List.mem_filterMap.mp member
    obtain ⟨_, date, same⟩ := Option.map_eq_some_iff.mp read
    cases same
    obtain ⟨row, rowMember, kept⟩ := List.mem_filterMap.mp listed
    obtain ⟨-, heard⟩ := Option.ite_none_right_eq_some.mp kept
    obtain ⟨_, present, entry⟩ := Option.map_eq_some_iff.mp heard
    cases entry
    exact ⟨row, raw, PeerTable.row?_eq_some_iff.mpr ⟨rowMember, rfl⟩,
      present, date⟩

section Turn

variable {snapshot : Snapshot} {state : IngestState}
  {record : EndpointRecord} {now : World} {subject calls : Nat}

theorem storeRecord_stores {row : PeerRow} (remembers : Remembers state now)
    (held : now.peers.row? subject = some row) :
    let finish := (storeRecord state record subject).alone
      environment.respond calls now
    Remembers finish.value finish.world ∧
      (environment.fault calls (.setPeerGossipRecord subject record) = none →
        ∃ kept, finish.world.peers.row? subject = some kept ∧
          kept.gossipRecord = some (.signed record)) := by
  rw [storeRecord, Prog.alone_call]
  cases fault : environment.fault calls
      (.setPeerGossipRecord subject record) with
  | some detail =>
    have failed : environment.respond calls now
        (.setPeerGossipRecord subject record) =
          (.error (.sql detail), now) := by
      simp [Environment.respond, fault, failure]
    rw [failed]
    exact ⟨remembers, by rintro ⟨⟩⟩
  | none =>
    have stored : environment.respond calls now
        (.setPeerGossipRecord subject record) =
          (.ok (), now.setPeerGossipRecord subject record) :=
      respond_of_no_fault fault
    rw [stored]
    have wrote : ∀ id,
        (now.setPeerGossipRecord subject record).peers.row? id =
          if id = subject then (now.peers.row? id).map
            ({ · with gossipRecord := some (.signed record) })
          else now.peers.row? id := by
      intro id
      simp only [World.setPeerGossipRecord, PeerTable.row?_update]
    refine ⟨?_, fun _ => ⟨_, by simp [wrote, held]; rfl, rfl⟩⟩
    intro id signedAt found
    by_cases same : id = subject
    · subst same
      change Rust.insert state.storedSignedAt id record.signedAt id =
        some signedAt at found
      rw [Rust.insert_same] at found
      cases found
      exact ⟨_, .signed record, by simp [wrote, held]; rfl, rfl, rfl⟩
    · change Rust.insert state.storedSignedAt subject record.signedAt id =
        some signedAt at found
      rw [Rust.insert_other _ same] at found
      obtain ⟨other, raw, present, kept, read⟩ := remembers id signedAt found
      exact ⟨other, raw, by simp [wrote, same, present], kept, read⟩

theorem acceptRecord_stores (remembers : Remembers state now)
    (present : Present subject now) :
    let finish := (acceptRecord snapshot state record subject).alone
      environment.respond calls now
    Remembers finish.value finish.world ∧
      ((∀ calls, environment.fault calls
          (.setPeerGossipRecord subject record) = none) →
        ∃ kept, finish.world.peers.row? subject = some kept ∧
          kept.gossipRecord = some (.signed record)) := by
  have only : ∀ via,
      (recordEndpoints subject record via).Only StoresNothing := by
    intro via
    exact recordEndpoints_only ⟨trivial, nofun⟩
      (by intros; exact ⟨trivial, nofun⟩) ..
  have remembersStill : ∀ via, Remembers state ((recordEndpoints subject record
      via).alone environment.respond calls now).world := by
    intro via
    apply (only via).alone (Remembers state) _ remembers
    intro calls world request allowed remembers
    exact remembers.respond allowed
  have presentStill : ∀ via, Present subject ((recordEndpoints subject
      record via).alone environment.respond calls now).world := by
    intro via
    apply (only via).alone (Present subject) _ present
    intro calls world request allowed present
    exact present.respond allowed.1
  obtain ⟨row, held⟩ := Option.isSome_iff_exists.mp (presentStill _)
  obtain ⟨after, stores⟩ := storeRecord_stores (remembersStill _) held
  unfold acceptRecord
  rw [Prog.alone_bind]
  exact ⟨after, fun unfailing => stores (unfailing _)⟩

theorem ingestRecord_remembers (remembers : Remembers state now)
    (present : ∀ id, Present id world → Present id now) :
    let finish := (ingestRecord crates
      (environment.snapshot world presenterId) state record).alone
        environment.respond calls now
    Remembers finish.value finish.world := by
  have counted : ∀ subject calls now,
      Remembers state now → Present subject now →
      let finish := (settleRecord (environment.snapshot world presenterId)
        state record subject).alone environment.respond calls now
      Remembers finish.value finish.world := by
    intro subject calls now remembers present
    unfold settleRecord
    split
    · exact remembers
    · exact (acceptRecord_stores remembers present).1
  unfold ingestRecord Snapshot.subjectOf
  split
  · split
    · rename_i peer found
      cases revoked : peer.isRevoked with
      | true => exact remembers
      | false =>
        obtain ⟨row, held, -⟩ := PeerTable.row?_of_mem_listPeers
          (byPubkey_eq_some found).1
        exact counted peer.id calls now remembers
          (present _ (Option.isSome_iff_exists.mpr ⟨row, held⟩))
    · split
      · simp only [Prog.bind_call, Prog.alone_call]
        rcases respond_bindPeerPubkey environment calls now
          (environment.snapshot world presenterId).presenterId record.pubkey
          with ⟨bindable, responded⟩ | ⟨answer, refused, responded⟩
        · have still : Remembers state (environment.respond calls now
              (.bindPeerPubkey (environment.snapshot world
                presenterId).presenterId record.pubkey)).2 :=
            remembers.respond ⟨trivial, nofun⟩
          rw [responded] at still ⊢
          apply counted _ (calls + 1) _ still
          obtain ⟨row, held, -⟩ := (Option.any_eq_true _ _).mp bindable
          obtain ⟨bound, found, -⟩ := boundTo_bindPeerPubkey held
          exact Option.isSome_iff_exists.mpr ⟨bound, found⟩
        · rw [responded]
          cases answer with
          | error reason => exact remembers
          | ok bound =>
            cases bound with
            | false => exact remembers
            | true => exact absurd rfl refused
      · exact remembers
  · exact remembers

end Turn

section Count

variable {before : List EndpointRecord} {record : EndpointRecord}

/-- The loop after `before`: what it knows is still so, and no row is
gone. -/
theorem ingestLoop_remembers (crates : Crates) (environment : Environment)
    (world : World) (presenterId : Nat) (records : List EndpointRecord) :
    let finish := environment.ingestLoop world crates presenterId records
    Remembers finish.value finish.world ∧
      ∀ id, Present id world → Present id finish.world := by
  let invariant := fun (_ : List EndpointRecord)
      (finish : Finish World IngestState) =>
    Remembers finish.value finish.world ∧
      ∀ id, Present id world → Present id finish.world
  apply Prog.alone_fold invariant
  · rintro record records state now calls ⟨remembers, present⟩
    refine ⟨ingestRecord_remembers remembers present, ?_⟩
    intro id was
    apply (ingestRecord_ingests _ state record).alone (Present id) _
      (present id was)
    intro calls now request ingests present
    exact present.respond ingests
  · exact ⟨remembers_readSignedAt, fun _ present => present⟩

theorem ingested_eq (crates : Crates) (world : World) (presenterId : Nat)
    (listed : environment.fault 0 .listPeers = none)
    (room : before.length ≤ maxRecords) :
    environment.ingested crates world presenterId before =
      let finish := environment.ingestLoop world crates presenterId before
      ⟨finish.value.summary, finish.world, finish.calls⟩ := by
  rw [Environment.ingested, ingest_alone listed, List.take_of_length_le room]

/-- The turn of `record` comes after the loop over `before`. -/
theorem ingestLoop_append (before : List EndpointRecord)
    (record : EndpointRecord) :
    environment.ingestLoop world crates presenterId (before ++ [record]) =
      let loop := environment.ingestLoop world crates presenterId before
      (ingestRecord crates (environment.snapshot world presenterId)
        loop.value record).alone environment.respond loop.calls
          loop.world := by
  simp only [Environment.ingestLoop, Prog.alone_fold_append, Prog.fold_cons,
    Prog.fold_nil, Prog.alone_bind, Prog.alone_done]

theorem ingestRecord_of_revoked {peer : Peer} (state : IngestState)
    (calls : Nat) (now : World)
    (admissible : crates.admissible (environment.clock 1) record = true)
    (found : byPubkey world.peers.listPeers record.pubkey = some peer)
    (revoked : peer.isRevoked = true) :
    (ingestRecord crates (environment.snapshot world presenterId) state
        record).alone environment.respond calls now =
      ⟨{ state with
        summary :=
          { state.summary with unknown := state.summary.unknown + 1 } },
        now, calls⟩ := by
  have looked : byPubkey (environment.snapshot world presenterId).peers
      record.pubkey = some peer := found
  unfold ingestRecord Snapshot.subjectOf
  rw [if_pos (by exact admissible), looked]
  simp [revoked]

theorem ingestRecord_of_active {peer : Peer} (state : IngestState)
    (calls : Nat) (now : World)
    (admissible : crates.admissible (environment.clock 1) record = true)
    (found : byPubkey world.peers.listPeers record.pubkey = some peer)
    (active : peer.isRevoked = false) :
    (ingestRecord crates (environment.snapshot world presenterId) state
        record).alone environment.respond calls now =
      (settleRecord (environment.snapshot world presenterId) state record
        peer.id).alone environment.respond calls now := by
  have looked : byPubkey (environment.snapshot world presenterId).peers
      record.pubkey = some peer := found
  unfold ingestRecord Snapshot.subjectOf
  rw [if_pos (by exact admissible), looked]
  simp [active]

theorem recognised_iff_oldest_active (crates : Crates)
    (environment : Environment) (world : World) (presenterId : Nat)
    (before : List EndpointRecord) (record : EndpointRecord)
    (listed : environment.fault 0 .listPeers = none)
    (room : before.length < maxRecords)
    (admissible : crates.admissible (environment.clock 1) record = true)
    (active : ∃ row ∈ world.peers.rows, row.pubkey = some record.pubkey ∧
      row.revokedAt = none) :
    Recognised crates environment world presenterId before record ↔
      ∃ row, world.Oldest record.pubkey row ∧ row.revokedAt = none := by
  have longer : (before ++ [record]).length ≤ maxRecords := by
    rw [List.length_append]
    exact room
  have earlier := ingested_eq crates world presenterId listed room.le
  have whole := ingested_eq crates world presenterId listed longer
  rw [ingestLoop_append] at whole
  obtain ⟨remembers, present⟩ :=
    ingestLoop_remembers crates environment world presenterId before
  generalize environment.ingestLoop world crates presenterId before = loop
    at earlier whole remembers present
  cases found : byPubkey world.peers.listPeers record.pubkey with
  | none =>
    obtain ⟨row, member, bound, -⟩ := active
    exact absurd bound (unlisted_of_byPubkey found row member)
  | some peer =>
    obtain ⟨row, oldest, rfl⟩ := oldest_of_byPubkey found
    have held := PeerTable.row?_eq_some_iff.mpr ⟨oldest.1, rfl⟩
    simp only [Recognised, earlier, whole]
    cases revoked : row.isRevoked with
    | true =>
      rw [ingestRecord_of_revoked _ _ _ admissible found revoked]
      constructor
      · rintro ⟨_, _, _, _, ⟨counted, _⟩ | ⟨counted, _⟩⟩
        all_goals
          have unknown := congrArg IngestSummary.unknown counted
          simp at unknown
      · rintro ⟨other, otherOldest, notRevoked⟩
        rw [oldest_unique otherOldest oldest] at notRevoked
        simp [Peer.isRevoked, notRevoked] at revoked
    | false =>
      rw [ingestRecord_of_active _ _ _ admissible found revoked]
      have notRevoked : row.revokedAt = none := by
        simpa [Peer.isRevoked] using revoked
      refine iff_of_true ?_ ⟨row, oldest, notRevoked⟩
      refine ⟨row, oldest.1, oldest.2.1, notRevoked, ?_⟩
      unfold settleRecord
      split
      · rename_i stale
        obtain ⟨signedAt, stored, older⟩ :=
          (Option.any_eq_true _ _).mp stale
        obtain ⟨kept, raw, now, holds, read⟩ :=
          remembers row.id signedAt stored
        exact .inr ⟨rfl, kept, raw, signedAt, now, holds, read, by
          simpa using older⟩
      · refine .inl ⟨acceptRecord_summary, ?_⟩
        exact (acceptRecord_stores remembers (present row.id
          (Option.isSome_iff_exists.mpr ⟨row, held⟩))).2

end Count

/-- Sam has introduced themselves, and Alex passes their record on. -/
theorem sam_recognised :
    Recognised plainCrates (.quiet fun _ => 300)
      (samAndAlex.bindPeerPubkey 1 "sam's key") 2 []
      (signedRecord "sam's key" "http://sam:6969" 200) := by
  let row : PeerRow :=
    ⟨{ freshPeer 1 "sam" "hash of sam" with pubkey := some "sam's key" },
      none⟩
  have member :
      row ∈ (samAndAlex.bindPeerPubkey 1 "sam's key").peers.rows := by
    decide
  refine (recognised_iff_oldest_active plainCrates (.quiet fun _ => 300)
    (samAndAlex.bindPeerPubkey 1 "sam's key") 2 [] _ rfl (by decide)
    (by decide) ⟨row, member, rfl, rfl⟩).mpr ⟨row, ⟨member, rfl, ?_⟩, rfl⟩
  decide

/-- Sam is added, pinned by an invite and revoked, then added again and
pinned by an invite again. -/
def samAgainJobs : Nat → Job
  | 0 => .createPeer "sam" "hash one"
  | 1 => .applyInvite (freshPeer 1 "sam" "hash one")
      ⟨"http://sam", "key one", some "sam's key"⟩
  | 2 => .revokePeer 1
  | 3 => .createPeer "sam again" "hash two"
  | _ => .applyInvite (freshPeer 2 "sam again" "hash two")
      ⟨"http://sam", "key two", some "sam's key"⟩

def samAgain : List (Event Nat Call Answer) :=
  [⟨0, .nowEpoch, (100 : Int)⟩,
    ⟨0, .createPeer "sam" "hash one" 100,
      .ok (freshPeer 1 "sam" "hash one")⟩,
    ⟨1, .bindPeerPubkey 1 "sam's key", .ok true⟩,
    ⟨2, .nowEpoch, (100 : Int)⟩, ⟨2, .revokePeer 1 100, .ok true⟩,
    ⟨3, .nowEpoch, (100 : Int)⟩,
    ⟨3, .createPeer "sam again" "hash two" 100,
      .ok (freshPeer 2 "sam again" "hash two")⟩,
    ⟨4, .bindPeerPubkey 2 "sam's key", .ok true⟩]

/-- Their record is counted as unknown, although the row of the second time is
active and bound to its key. -/
theorem sam_again_unrecognised :
    ∃ reached, Run perform .always
        (pool plainCrates World.empty samAgainJobs) samAgain reached ∧
      (∃ row ∈ reached.world.peers.rows,
        row.pubkey = some "sam's key" ∧ row.revokedAt = none) ∧
        ¬ Recognised plainCrates (.quiet fun _ => 300) reached.world 2 []
          (signedRecord "sam's key" "http://sam:6969" 200) := by
  have replayed : (replay perform (fun _ _ => true) []
      (pool plainCrates World.empty samAgainJobs) samAgain).map
        (fun reached =>
          (reached.world.peers.rows.any fun row =>
              row.pubkey = some "sam's key" && row.revokedAt.isNone,
            ((Environment.quiet fun _ => 300).ingested plainCrates
              reached.world 2 []).value,
            ((Environment.quiet fun _ => 300).ingested plainCrates
              reached.world 2
              [signedRecord "sam's key" "http://sam:6969" 200]).value)) =
      some (true, ⟨0, 0, 0, 0⟩, ⟨0, 0, 1, 0⟩) := by decide +kernel
  obtain ⟨reached, run, seen⟩ :=
    Run.exists_of_replay (fun _ _ _ => trivial) replayed
  simp only [Prod.mk.injEq, List.any_eq_true, Bool.and_eq_true,
    decide_eq_true_eq, Option.isNone_iff_eq_none] at seen
  obtain ⟨active, earlier, whole⟩ := seen
  refine ⟨reached, run, active, ?_⟩
  rintro ⟨_, -, -, -, ⟨counted, -⟩ | ⟨counted, -⟩⟩
  · rw [List.nil_append, whole, earlier] at counted
    cases counted
  · rw [List.nil_append, whole, earlier] at counted
    cases counted

end Gossip

end Sharerr
