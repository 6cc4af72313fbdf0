import Sharerr.Gossip.Alone

/-!
# Trust on first use

An ingest binds an unbound presenter to the key of a record that no listed
peer is bound to.  A valid signature shows who made a record, not who presents
it, so the key is the presenter's own exactly where every such record of the
batch is.
-/

namespace Sharerr

namespace Gossip

open Process

def Environment.ingested (environment : Environment) (crates : Crates)
    (world : World) (presenterId : Nat) (records : List EndpointRecord) :
    Finish World IngestSummary :=
  (ingest crates presenterId records).alone environment.respond 0 world

/-- No row is bound to `pubkey`. -/
def World.Unlisted (world : World) (pubkey : String) : Prop :=
  ∀ row ∈ world.peers.rows, row.pubkey ≠ some pubkey

/-- Trust on first use as it is meant, for a presenter who signs with `own`
and presents `records`. -/
structure BindsOnlyOwn (crates : Crates) (clock : Nat → Int) (world : World)
    (presenterId : Nat) (own : String) (records : List EndpointRecord) :
    Prop where
  /-- Whatever fails on the way, the presenter ends up bound to no key but
  their own. -/
  own_only : ∀ environment : Environment, environment.clock = clock →
    ∀ row pubkey,
      (environment.ingested crates world presenterId records).world.peers.row?
          presenterId = some row →
        row.pubkey = some pubkey → pubkey = own
  /-- Somebody not known before can still introduce themselves over their own
  credential. -/
  others_free : ∀ environment : Environment, environment.clock = clock →
    ∀ (third : PeerRow) (record : EndpointRecord) (later : Nat → Int),
      world.peers.row? third.id = some third → third.id ≠ presenterId →
        third.pubkey = none → third.gossipRecord = none →
          record.pubkey ≠ own → world.Unlisted record.pubkey →
            crates.admissible (later 1) record = true →
              let finish := (Environment.quiet later).ingested crates
                (environment.ingested crates world presenterId records).world
                third.id [record]
              finish.value = ⟨1, 0, 0, 0⟩ ∧
                ∃ row, finish.world.peers.row? third.id = some row ∧
                  row.pubkey = some record.pubkey

variable {crates : Crates} {environment : Environment} {world : World}
variable {presenterId : Nat} {records : List EndpointRecord}
variable {clock : Nat → Int}

theorem ingested_of_fault {detail : String}
    (fault : environment.fault 0 .listPeers = some detail) :
    environment.ingested crates world presenterId records =
      ⟨.default, world, 1⟩ := by
  simp [Environment.ingested, ingest, Prog.alone_call, Environment.respond,
    fault, failure]

theorem ingested_keeps {allowed : Call → Prop} {property : World → Prop}
    (kept : ∀ calls world request, allowed request → property world →
      property (environment.respond calls world request).2)
    (turns : ∀ state, ∀ record ∈ records.take maxRecords,
      (ingestRecord crates (environment.snapshot world presenterId) state
        record).Only allowed)
    (holds : property world) :
    property
      (environment.ingested crates world presenterId records).world := by
  cases fault : environment.fault 0 .listPeers with
  | some detail =>
    rw [ingested_of_fault fault]
    exact holds
  | none =>
    rw [Environment.ingested, ingest_alone fault]
    exact (Prog.Only.fold turns _).alone property kept holds

/-- The row `id` is bound to a key of `keys`, if to any. -/
def BoundWithin (id : Nat) (keys : String → Prop) (world : World) : Prop :=
  ∀ row, world.peers.row? id = some row →
    ∀ pubkey, row.pubkey = some pubkey → keys pubkey

/-- The row `id` exists and is bound to `pubkey`. -/
def BoundTo (id : Nat) (pubkey : String) (world : World) : Prop :=
  ∃ row, world.peers.row? id = some row ∧ row.pubkey = some pubkey

section Calls

variable {calls : Nat} {request : Call} (ingests : IngestCall request)
include ingests

theorem BoundWithin.respond {id : Nat} {keys : String → Prop}
    (binds : ∀ pubkey, request = .bindPeerPubkey id pubkey →
      environment.fault calls request = none → keys pubkey)
    (within : BoundWithin id keys world) :
    BoundWithin id keys (environment.respond calls world request).2 := by
  intro row found pubkey bound
  rcases row?_respond environment calls world ingests id with
    same | ⟨key, asked, unfailing, -, wrote⟩ | ⟨record, -, wrote⟩
  · rw [same] at found
    exact within row found pubkey bound
  · rw [wrote] at found
    obtain ⟨before, -, rfl⟩ := Option.map_eq_some_iff.mp found
    cases bound
    exact binds _ asked unfailing
  · rw [wrote] at found
    obtain ⟨before, held, rfl⟩ := Option.map_eq_some_iff.mp found
    exact within before held pubkey bound

theorem BoundTo.respond {id : Nat} {pubkey : String}
    (bound : BoundTo id pubkey world) :
    BoundTo id pubkey (environment.respond calls world request).2 := by
  obtain ⟨row, held, key⟩ := bound
  rcases row?_respond environment calls world ingests id with
    same | ⟨other, -, -, bindable, wrote⟩ | ⟨record, -, wrote⟩
  · exact ⟨row, same.trans held, key⟩
  · rw [held, Option.map_some] at wrote
    refine ⟨_, wrote, ?_⟩
    simpa [World.bindable, held, key, eq_comm] using bindable
  · rw [held, Option.map_some] at wrote
    exact ⟨_, wrote, key⟩

end Calls

variable {pubkey : String} {row : PeerRow} {record : EndpointRecord}

theorem byPubkey_eq_none_of_unlisted (unlisted : world.Unlisted pubkey) :
    byPubkey world.peers.listPeers pubkey = none := by
  rw [byPubkey_eq_none_iff]
  intro peer listed
  obtain ⟨row, member, rfl⟩ := PeerTable.mem_listPeers.mp listed
  exact unlisted row member

theorem presenterUnbound_of_row? (environment : Environment)
    (found : world.peers.row? presenterId = some row)
    (unbound : row.pubkey = none) :
    (environment.snapshot world presenterId).presenterUnbound = true := by
  have named := (PeerTable.row?_eq_some_iff.mp found).2
  cases first : world.peers.listPeers.find?
      fun peer => peer.id = presenterId with
  | none =>
    have absent := List.find?_eq_none.mp first _
      (PeerTable.mem_listPeers_of_row? found)
    simp [named] at absent
  | some peer =>
    obtain ⟨listed, held, rfl⟩ := PeerTable.row?_of_mem_listPeers
      (List.mem_of_find?_eq_some first)
    have same : listed.id = presenterId := by
      simpa using List.find?_some first
    rw [same, found] at held
    cases held
    have free : (some row.toPeer).any
        (fun peer => peer.pubkey.isNone) = true := by
      simp [unbound]
    rw [← first] at free
    exact free

/-- The turn of a record nobody listed has the key of, while the presenter is
free to take it. -/
theorem ingestRecord_binds {now : World} (environment : Environment)
    (state : IngestState) (calls : Nat)
    (found : world.peers.row? presenterId = some row)
    (unbound : row.pubkey = none)
    (admissible : crates.admissible (environment.clock 1) record = true)
    (unlisted : world.Unlisted record.pubkey)
    (unfailing : environment.fault calls
      (.bindPeerPubkey presenterId record.pubkey) = none)
    (bindable : now.bindable presenterId record.pubkey = true) :
    (ingestRecord crates (environment.snapshot world presenterId) state
        record).alone environment.respond calls now =
      (settleRecord (environment.snapshot world presenterId) state record
        presenterId).alone environment.respond (calls + 1)
          (now.bindPeerPubkey presenterId record.pubkey) := by
  have free := presenterUnbound_of_row? environment found unbound
  have absent : byPubkey (environment.snapshot world presenterId).peers
      record.pubkey = none :=
    byPubkey_eq_none_of_unlisted unlisted
  have asked : environment.respond calls now
      (.bindPeerPubkey presenterId record.pubkey) =
        (.ok true, now.bindPeerPubkey presenterId record.pubkey) := by
    rw [respond_of_no_fault unfailing]
    simp [answered, bindable]
  unfold ingestRecord Snapshot.subjectOf
  rw [if_pos (by exact admissible), absent]
  simp only [free, if_true, Prog.bind_call, Prog.alone_call]
  simp only [Environment.snapshot, asked, Prog.bind_done]

theorem boundTo_bindPeerPubkey {id : Nat}
    (found : world.peers.row? id = some row) :
    BoundTo id pubkey (world.bindPeerPubkey id pubkey) := by
  refine ⟨{ row with pubkey := some pubkey }, ?_, rfl⟩
  simp [World.bindPeerPubkey, PeerTable.row?_update, found]

theorem ingestRecord_ingests (snapshot : Snapshot) (state : IngestState)
    (record : EndpointRecord) :
    (ingestRecord crates snapshot state record).Only IngestCall :=
  ingestRecord_only (by trivial) (by intros; trivial) (by intros; trivial)
    (by intros; trivial) state

theorem acceptRecord_ingests (snapshot : Snapshot) (state : IngestState)
    (record : EndpointRecord) (subject : Nat) :
    (acceptRecord snapshot state record subject).Only IngestCall :=
  acceptRecord_only (by trivial) (by intros; trivial) trivial state

theorem acceptRecord_summary {snapshot : Snapshot} {state : IngestState}
    {subject calls : Nat} :
    ((acceptRecord snapshot state record subject).alone environment.respond
        calls world).value.summary =
      { state.summary with accepted := state.summary.accepted + 1 } := by
  simp only [acceptRecord, storeRecord, Prog.alone_bind, Prog.alone_call]
  split <;> rfl

/-- The calls of an ingest that binds `presenterId` to `own` or not at
all. -/
def OwnBinding (presenterId : Nat) (own : String) (request : Call) : Prop :=
  IngestCall request ∧ ∀ id pubkey, request = .bindPeerPubkey id pubkey →
    id = presenterId ∧ pubkey = own

/-- The key of every record of the batch that could bind the presenter is
their own. -/
def UnlistedAreOwn (crates : Crates) (now : Int) (world : World)
    (own : String) (records : List EndpointRecord) : Prop :=
  ∀ record ∈ records.take maxRecords,
    crates.admissible now record = true → world.Unlisted record.pubkey →
      record.pubkey = own

theorem unlisted_of_byPubkey
    (absent : byPubkey world.peers.listPeers pubkey = none) :
    world.Unlisted pubkey := by
  intro row member
  exact byPubkey_eq_none_iff.mp absent row.toPeer
    (PeerTable.mem_listPeers.mpr ⟨row, member, rfl⟩)

section Own

variable {own : String}
  (holds : UnlistedAreOwn crates (environment.clock 1) world own records)
include holds

theorem ownBinding_turns (state : IngestState) :
    ∀ record ∈ records.take maxRecords,
      (ingestRecord crates (environment.snapshot world presenterId) state
        record).Only (OwnBinding presenterId own) := by
  intro record member
  apply ingestRecord_only
  · exact ⟨trivial, nofun⟩
  · intros
    exact ⟨trivial, nofun⟩
  · intro subject _
    exact ⟨trivial, nofun⟩
  · intro admissible absent
    refine ⟨trivial, ?_⟩
    rintro id pubkey asked
    cases asked
    exact ⟨rfl, holds record member admissible (unlisted_of_byPubkey absent)⟩

theorem boundWithin_ingested {id : Nat} (keys : String → Prop)
    (takes : id = presenterId → keys own)
    (within : BoundWithin id keys world) :
    BoundWithin id keys
      (environment.ingested crates world presenterId records).world := by
  refine ingested_keeps ?_ (ownBinding_turns holds) within
  intro calls world request allowed within
  apply within.respond allowed.1
  intro pubkey asked _
  obtain ⟨rfl, rfl⟩ := allowed.2 id pubkey asked
  exact takes rfl

theorem row?_ingested_third {third : PeerRow}
    (found : world.peers.row? third.id = some third)
    (other : third.id ≠ presenterId) (unbound : third.pubkey = none) :
    (environment.ingested crates world presenterId records).world.peers.row?
      third.id = some third := by
  have turns : ∀ state, ∀ record ∈ records.take maxRecords,
      (ingestRecord crates (environment.snapshot world presenterId) state
        record).Only fun request => OwnBinding presenterId own request ∧
          ∀ stored, request ≠ .setPeerGossipRecord third.id stored := by
    intro state record member
    apply ingestRecord_only
    · exact ⟨⟨trivial, nofun⟩, nofun⟩
    · intros
      exact ⟨⟨trivial, nofun⟩, nofun⟩
    · intro subject concerns
      refine ⟨⟨trivial, nofun⟩, ?_⟩
      intro stored asked
      cases asked
      rcases concerns with same | ⟨peer, looked, same⟩
      · exact other same
      · obtain ⟨listed, bound⟩ := byPubkey_eq_some looked
        obtain ⟨row, held, rfl⟩ := PeerTable.row?_of_mem_listPeers listed
        rw [same, found] at held
        cases held
        rw [unbound] at bound
        cases bound
    · intro admissible absent
      refine ⟨⟨trivial, ?_⟩, nofun⟩
      rintro id pubkey asked
      cases asked
      exact ⟨rfl, holds record member admissible (unlisted_of_byPubkey absent)⟩
  have kept : ∀ calls now request,
      (OwnBinding presenterId own request ∧
        ∀ stored, request ≠ .setPeerGossipRecord third.id stored) →
          now.peers.row? third.id = some third →
            (environment.respond calls now request).2.peers.row? third.id =
              some third := by
    rintro calls now request ⟨allowed, stores⟩ held
    rcases row?_respond environment calls now allowed.1 third.id with
      same | ⟨pubkey, asked, -, -, -⟩ | ⟨record, asked, -⟩
    · exact same.trans held
    · exact absurd (allowed.2 _ _ asked).1 other
    · exact absurd asked (stores record)
  exact ingested_keeps kept turns found

end Own

theorem readSignedAt_eq_none (found : world.peers.row? row.id = some row)
    (unheard : row.gossipRecord = none) :
    (Environment.quiet clock).readSignedAt world row.id = none := by
  apply Rust.collected_eq_none_iff.mpr
  rintro ⟨id, signedAt⟩ member rfl
  obtain ⟨⟨stored, raw⟩, listed, read⟩ := List.mem_filterMap.mp member
  obtain ⟨signed, -, readSame⟩ := Option.map_eq_some_iff.mp read
  obtain ⟨other, otherMember, kept⟩ := List.mem_filterMap.mp listed
  obtain ⟨-, heard⟩ := Option.ite_none_right_eq_some.mp kept
  obtain ⟨text, present, entry⟩ := Option.map_eq_some_iff.mp heard
  have same : other.id = row.id :=
    (congrArg Prod.fst entry).trans (congrArg Prod.fst readSame)
  have held := PeerTable.row?_eq_some_iff.mpr ⟨otherMember, same⟩
  rw [found] at held
  cases held
  rw [unheard] at present
  cases present

/-- A peer nobody has the key of, and whose record was never stored, binds
their key and has the record accepted. -/
theorem ingested_introduces (found : world.peers.row? row.id = some row)
    (unbound : row.pubkey = none) (unheard : row.gossipRecord = none)
    (unlisted : world.Unlisted record.pubkey)
    (admissible : crates.admissible (clock 1) record = true) :
    let finish := (Environment.quiet clock).ingested crates world row.id
      [record]
    finish.value = ⟨1, 0, 0, 0⟩ ∧
      BoundTo row.id record.pubkey finish.world := by
  have bindable : world.bindable row.id record.pubkey = true := by
    simp [World.bindable, found, unbound]
  have turn := ingestRecord_binds (Environment.quiet clock)
    ⟨.default, (Environment.quiet clock).readSignedAt world⟩ 3 found unbound
    admissible unlisted rfl bindable
  simp only [settleRecord, IngestState.isStale,
    readSignedAt_eq_none found unheard,
    Option.any_none, Bool.false_eq_true, if_false] at turn
  have listed : (Environment.quiet clock).fault 0 .listPeers = none := rfl
  simp only [Environment.ingested, ingest_alone listed,
    Environment.ingestLoop, maxRecords, List.take_succ_cons, List.take_nil,
    Prog.fold_cons, Prog.fold_nil, Prog.alone_bind, Prog.alone_done, turn]
  constructor
  · exact acceptRecord_summary
  · exact (acceptRecord_ingests _ _ _ _).alone
      (BoundTo row.id record.pubkey)
      (fun _ _ _ ingests bound => bound.respond ingests)
      (boundTo_bindPeerPubkey found)

/-- Every bind fails but those to `pubkey`. -/
def Environment.binding (clock : Nat → Int) (pubkey : String) :
    Environment where
  clock := clock
  fault
    | _, .bindPeerPubkey _ other =>
      if other = pubkey then none else some "database is locked"
    | _, _ => none
  lighthouse := fun _ _ _ => .error "connection refused"

theorem ingested_binds (found : world.peers.row? presenterId = some row)
    (unbound : row.pubkey = none) (member : record ∈ records.take maxRecords)
    (admissible : crates.admissible (clock 1) record = true)
    (unlisted : world.Unlisted record.pubkey) :
    BoundTo presenterId record.pubkey
      ((Environment.binding clock record.pubkey).ingested crates world
        presenterId records).world := by
  let environment := Environment.binding clock record.pubkey
  let snapshot := environment.snapshot world presenterId
  -- until its turn comes, the presenter has this key or none
  let waiting := fun now : World =>
    (now.peers.row? presenterId).isSome ∧
      BoundWithin presenterId (· = record.pubkey) now
  have kept : ∀ calls now request, IngestCall request → waiting now →
      waiting (environment.respond calls now request).2 := by
    rintro calls now request ingests ⟨present, within⟩
    constructor
    · rw [isSome_row?_respond environment calls now ingests]
      exact present
    · apply within.respond ingests
      rintro pubkey rfl unfailing
      simpa [environment, Environment.binding] using unfailing
  have stays : ∀ calls now request, IngestCall request →
      BoundTo presenterId record.pubkey now →
        BoundTo presenterId record.pubkey
          (environment.respond calls now request).2 :=
    fun _ _ _ ingests bound => bound.respond ingests
  have turn : ∀ state now calls, waiting now →
      BoundTo presenterId record.pubkey
        ((ingestRecord crates snapshot state record).alone
          environment.respond calls now).world := by
    rintro state now calls ⟨present, within⟩
    obtain ⟨current, held⟩ := Option.isSome_iff_exists.mp present
    have bindable : now.bindable presenterId record.pubkey = true := by
      cases key : current.pubkey with
      | none => simp [World.bindable, held, key]
      | some other =>
        simp [World.bindable, held, key, within current held other key]
    have unfailing : environment.fault calls
        (.bindPeerPubkey presenterId record.pubkey) = none := by
      simp [environment, Environment.binding]
    rw [ingestRecord_binds environment state calls found unbound admissible
      unlisted unfailing bindable, settleRecord]
    split
    · exact boundTo_bindPeerPubkey held
    · exact (acceptRecord_ingests _ _ _ _).alone _ stays
        (boundTo_bindPeerPubkey held)
  let invariant := fun (items : List EndpointRecord)
      (finish : Finish World IngestState) =>
    record ∈ items ∧ waiting finish.world ∨
      BoundTo presenterId record.pubkey finish.world
  have body : ∀ item items state now calls,
      invariant (item :: items) ⟨state, now, calls⟩ →
        invariant items ((ingestRecord crates snapshot state item).alone
          environment.respond calls now) := by
    rintro item items state now calls (⟨toCome, holds⟩ | bound)
    · rcases List.mem_cons.mp toCome with rfl | later
      · exact .inr (turn state now calls holds)
      · exact .inl ⟨later,
          (ingestRecord_ingests snapshot state item).alone waiting kept
            holds⟩
    · exact .inr
        ((ingestRecord_ingests snapshot state item).alone _ stays bound)
  have start : waiting world := by
    refine ⟨by simp [found], ?_⟩
    intro held same pubkey bound
    rw [found] at same
    cases same
    rw [unbound] at bound
    cases bound
  rw [Environment.ingested, ingest_alone rfl]
  rcases Prog.alone_fold invariant body _ _ world 3 (.inl ⟨member, start⟩)
    with ⟨none, -⟩ | bound
  · cases none
  · exact bound

theorem bindsOnlyOwn_iff_unlistedAreOwn (crates : Crates)
    (clock : Nat → Int) (world : World) (presenterId : Nat) (own : String)
    (records : List EndpointRecord) {row : PeerRow}
    (found : world.peers.row? presenterId = some row)
    (unbound : row.pubkey = none) :
    BindsOnlyOwn crates clock world presenterId own records ↔
      UnlistedAreOwn crates (clock 1) world own records := by
  constructor
  · intro meant record member admissible unlisted
    obtain ⟨bound, held, key⟩ :=
      ingested_binds found unbound member admissible unlisted
    exact meant.own_only (Environment.binding clock record.pubkey) rfl bound
      record.pubkey held key
  · intro areOwn
    refine ⟨?_, ?_⟩
    · rintro environment rfl bound pubkey held key
      refine boundWithin_ingested areOwn (· = own)
        (fun _ => rfl) ?_ bound held pubkey key
      intro before same pubkey key
      rw [found] at same
      cases same
      rw [unbound] at key
      cases key
    · rintro environment rfl third record later thirdFound other free unheard
        different unlisted admissible
      have thirdAfter := row?_ingested_third areOwn thirdFound other free
      refine ingested_introduces thirdAfter free unheard ?_ admissible
      intro after member key
      refine boundWithin_ingested areOwn (· ≠ record.pubkey)
        (fun _ => different.symm) ?_ after
        (PeerTable.row?_eq_some_iff.mpr ⟨member, rfl⟩) record.pubkey key rfl
      rintro before held pubkey bound rfl
      exact unlisted before (PeerTable.row?_eq_some_iff.mp held).1 bound

def samAndAlex : World where
  peers :=
    { rows := [⟨freshPeer 1 "sam" "hash of sam", none⟩,
        ⟨freshPeer 2 "alex" "hash of alex", none⟩]
      nextId := 3
      below := by decide
      ids := by decide
      labels := by decide
      keyHashes := by decide }
  endpoints := .empty
  endpointHistory := 5
  secrets := []

/-- Sam presents their own record. -/
theorem sam_binds_only_own :
    BindsOnlyOwn plainCrates (fun _ => 300) samAndAlex 1 "sam's key"
      [signedRecord "sam's key" "http://sam:6969" 200] := by
  have found : samAndAlex.peers.row? 1 =
      some ⟨freshPeer 1 "sam" "hash of sam", none⟩ := by
    decide
  refine (bindsOnlyOwn_iff_unlistedAreOwn plainCrates (fun _ => 300)
    samAndAlex 1 "sam's key" _ found rfl).mpr ?_
  intro record member _ _
  rw [List.mem_singleton.mp member]
  rfl

/-- Sam presents a record of Alex's and is bound to Alex's key. -/
theorem sam_takes_alexs_key :
    ¬ BindsOnlyOwn plainCrates (fun _ => 300) samAndAlex 1 "sam's key"
        [signedRecord "alex's key" "http://alex:6969" 200] := by
  intro meant
  have taken := meant.own_only (Environment.quiet fun _ => 300) rfl
    ⟨{ freshPeer 1 "sam" "hash of sam" with pubkey := some "alex's key" },
      some (.signed (signedRecord "alex's key" "http://alex:6969" 200))⟩
    "alex's key" (by decide +kernel) rfl
  revert taken
  decide

end Gossip

end Sharerr
