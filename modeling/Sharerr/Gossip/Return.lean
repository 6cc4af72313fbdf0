import Sharerr.Gossip.FirstUse

/-!
# The return half of a pairing, alone

What one call of `pair` leaves behind, for any calls of it that fail: whether
the same request can be made again, and whether the caller's identity is
pinned once it was answered with success.
-/

namespace Sharerr

namespace Gossip

open Process

def Environment.paired (environment : Environment) (crates : Crates)
    (world : World) (callerId : Nat) (request : PairRequest) :
    Finish World Response :=
  (pair crates callerId request).alone environment.respond 0 world

/-- No call fails. -/
def Environment.Unfailing (environment : Environment) : Prop :=
  ∀ calls request, environment.fault calls request = none

/-- The environment as it is after `earlier` calls. -/
def Environment.after (environment : Environment) (earlier : Nat) :
    Environment where
  clock count := environment.clock (earlier + count)
  fault count := environment.fault (earlier + count)
  lighthouse count := environment.lighthouse (earlier + count)

/-- What `Url::parse` makes of an address does not depend on the white space
around it, and white space alone is no address. -/
def Crates.TrimsUrls (crates : Crates) : Prop :=
  ∀ url parsed, crates.parseUrl url = .ok parsed →
    Rust.trim url ≠ "" ∧ ∃ trimmed, crates.parseUrl (Rust.trim url) =
      .ok trimmed

variable {crates : Crates} {environment : Environment} {world : World}
variable {callerId calls : Nat} {request : PairRequest} {row : PeerRow}

theorem alone_after {α : Type} (program : Program α) (earlier : Nat) :
    (program.alone environment.respond earlier world).world =
      (program.alone (environment.after earlier).respond 0 world).world := by
  have shifted : program.alone environment.respond (earlier + 0) world = _ :=
    Prog.alone_later program earlier
  rw [Nat.add_zero] at shifted
  rw [shifted]
  have same : (fun count => environment.respond (earlier + count)) =
      (environment.after earlier).respond := by
    funext count world request
    cases request <;> rfl
  rw [same]

/-- The outbound half of a peer as `pair` judges it. -/
def World.OutboundEmpty (world : World) (row : PeerRow) : Prop :=
  row.gossipUrl = none ∧ keyStored world.secrets row.id = false

/-- One of the calls up to the vault write fails. -/
def Environment.FailsEarly (environment : Environment) (callerId : Nat)
    (request : PairRequest) : Prop :=
  environment.fault 0 (.peer callerId) ≠ none ∨
    environment.fault 1 .openVault ≠ none ∨
      environment.fault 2 (.vaultPut (peerGossipKey callerId) request.key) ≠
        none

variable {peer : Peer} {address key pubkey : String}

theorem gossipUrl_of_valid (trims : crates.TrimsUrls)
    (valid : refusal crates peer request = none) :
    ∃ address, gossipUrl crates (some request.url) = .ok (some address) := by
  have parses : ∃ parsed, crates.parseUrl request.url = .ok parsed := by
    cases read : crates.parseUrl request.url with
    | ok parsed => exact ⟨parsed, rfl⟩
    | error reason => simp [refusal, validateUrl, read] at valid
  obtain ⟨parsed, read⟩ := parses
  obtain ⟨given, trimmed, reads⟩ := trims request.url parsed read
  exact ⟨trimmed.2, by simp [gossipUrl, given, reads]⟩

theorem respond_fault {wanted : Call} {detail : String}
    {answer : Answer wanted}
    (fault : environment.fault calls wanted = some detail)
    (fails : failure detail wanted = some answer) :
    environment.respond calls world wanted = (answer, world) := by
  simp [Environment.respond, fault, fails]

/-- The world once the key is in the vault. -/
def World.withKey (world : World) (callerId : Nat) (key : String) : World :=
  { world with secrets := world.secrets.put (peerGossipKey callerId) key }

section Calls

variable (found : world.peers.row? callerId = some row)
  (valid : refusal crates row.toPeer request = none)
  (empty : world.OutboundEmpty row)
include found valid empty

theorem paired_eq_storeOutbound
    (read : environment.fault 0 (.peer callerId) = none)
    (opened : environment.fault 1 .openVault = none) :
    environment.paired crates world callerId request =
      (storeOutbound crates row.toPeer request).alone environment.respond 2
        world := by
  unfold Environment.paired pair
  rw [Prog.alone_call, respond_of_no_fault read]
  simp only [answered, found, Option.map_some, valid]
  rw [Prog.alone_call, respond_of_no_fault opened]
  simp only [answered, empty.1, empty.2, Option.isSome_none, Bool.or_self,
    Bool.false_eq_true, if_false]

theorem paired_of_failsEarly
    (early : environment.FailsEarly callerId request) :
    (environment.paired crates world callerId request).world = world := by
  have named := (PeerTable.row?_eq_some_iff.mp found).2
  cases first : environment.fault 0 (.peer callerId) with
  | some detail =>
    unfold Environment.paired pair
    rw [Prog.alone_call, respond_fault first rfl]
    rfl
  | none =>
    cases second : environment.fault 1 .openVault with
    | some detail =>
      unfold Environment.paired pair
      rw [Prog.alone_call, respond_of_no_fault first]
      simp only [answered, found, Option.map_some, valid]
      rw [Prog.alone_call, respond_fault second rfl]
      rfl
    | none =>
      obtain ⟨detail, third⟩ : ∃ detail, environment.fault 2
          (.vaultPut (peerGossipKey callerId) request.key) =
            some detail := by
        rcases early with fails | fails | fails
        · exact absurd first fails
        · exact absurd second fails
        · exact Option.ne_none_iff_exists'.mp fails
      rw [paired_eq_storeOutbound found valid empty first second,
        storeOutbound, Prog.alone_call, named, respond_fault third rfl]
      rfl

theorem paired_of_not_failsEarly
    (late : ¬ environment.FailsEarly callerId request) {address : String}
    (normal : gossipUrl crates (some request.url) = .ok (some address)) :
    (∃ detail, environment.fault 3
          (.setPeerGossipUrl callerId (some address)) = some detail ∧
        environment.paired crates world callerId request =
          ⟨⟨.serviceUnavailable, "could not store the address"⟩,
            world.withKey callerId request.key, 4⟩) ∨
      environment.fault 3 (.setPeerGossipUrl callerId (some address)) = none ∧
        environment.paired crates world callerId request =
          (finishPair crates row.toPeer request).alone environment.respond 4
            ((world.withKey callerId request.key).setPeerGossipUrl callerId
              (some address)) := by
  have named := (PeerTable.row?_eq_some_iff.mp found).2
  simp only [Environment.FailsEarly, not_or, not_not] at late
  obtain ⟨first, second, third⟩ := late
  rw [paired_eq_storeOutbound found valid empty first second, storeOutbound,
    Prog.alone_call, named, respond_of_no_fault third]
  simp only [answered, normal, Prog.alone_call]
  cases fourth : environment.fault 3
      (.setPeerGossipUrl callerId (some address)) with
  | some detail =>
    left
    rw [respond_fault fourth rfl]
    exact ⟨detail, rfl, rfl⟩
  | none =>
    right
    rw [respond_of_no_fault fourth]
    simp only [answered, found, Option.isSome_some]
    exact ⟨trivial, rfl⟩

end Calls

/-- The same request, made again when nothing fails any more, is answered
with success and leaves the half it asked for. -/
def Retried (crates : Crates) (world : World) (callerId : Nat)
    (request : PairRequest) : Prop :=
  ∀ environment : Environment, environment.Unfailing →
    let finish := environment.paired crates world callerId request
    finish.value.status = .noContent ∧
      (∃ row, finish.world.peers.row? callerId = some row ∧
        gossipUrl crates (some request.url) = .ok row.gossipUrl) ∧
          finish.world.secrets.get (peerGossipKey callerId) =
            .ok (some request.key)

/-- The half `pair` leaves behind. -/
def Holds (callerId : Nat) (address key : String) (world : World) : Prop :=
  (∃ row, world.peers.row? callerId = some row ∧
    row.gossipUrl = some address) ∧
      world.secrets.get (peerGossipKey callerId) = .ok (some key)

theorem Holds.respond {wanted : Call} (ingests : IngestCall wanted)
    (holds : Holds callerId address key world) :
    Holds callerId address key
      (environment.respond calls world wanted).2 := by
  obtain ⟨⟨row, held, stored⟩, secret⟩ := holds
  constructor
  · rcases row?_respond environment calls world ingests callerId with
      same | ⟨pubkey, -, -, -, wrote⟩ | ⟨record, -, wrote⟩
    · exact ⟨row, same.trans held, stored⟩
    · rw [held] at wrote
      exact ⟨_, wrote, stored⟩
    · rw [held] at wrote
      exact ⟨_, wrote, stored⟩
  · rw [secrets_respond ingests]
    exact secret

theorem finishPair_status :
    ((finishPair crates peer request).alone environment.respond calls
      world).value.status = .noContent := by
  unfold finishPair
  split
  · rfl
  · rw [Prog.alone_bind]
    rfl

theorem Holds.finishPair (holds : Holds callerId address key world) :
    Holds callerId address key ((Gossip.finishPair crates peer request).alone
      environment.respond calls world).world := by
  unfold Gossip.finishPair
  split
  · exact holds
  · rw [Prog.alone_bind]
    exact (ingest_only _ _).alone _
      (fun _ _ _ ingests held => held.respond ingests) holds

theorem holds_of_writes (found : world.peers.row? callerId = some row) :
    Holds callerId address key
      ((world.withKey callerId key).setPeerGossipUrl callerId
        (some address)) := by
  constructor
  · refine ⟨{ row with gossipUrl := some address }, ?_, rfl⟩
    simp [World.setPeerGossipUrl, World.withKey, PeerTable.row?_update, found]
  · exact Secrets.get_put_same ..

theorem retried_of_empty (trims : crates.TrimsUrls)
    (found : world.peers.row? callerId = some row)
    (valid : refusal crates row.toPeer request = none)
    (empty : world.OutboundEmpty row) :
    Retried crates world callerId request := by
  intro environment unfailing
  obtain ⟨address, normal⟩ := gossipUrl_of_valid trims valid
  have late : ¬ environment.FailsEarly callerId request := by
    simp [Environment.FailsEarly, unfailing _ _]
  rcases paired_of_not_failsEarly found valid empty late normal with
    ⟨detail, fault, -⟩ | ⟨-, finished⟩
  · rw [unfailing] at fault
    cases fault
  · rw [finished]
    have holds : Holds callerId address request.key
        ((finishPair crates row.toPeer request).alone environment.respond 4
          ((world.withKey callerId request.key).setPeerGossipUrl callerId
            (some address))).world :=
      (holds_of_writes found).finishPair
    obtain ⟨⟨stored, held, same⟩, secret⟩ := holds
    refine ⟨finishPair_status, ⟨stored, held, ?_⟩, secret⟩
    rw [same, normal]

theorem respond_quiet (clock : Nat → Int) (wanted : Call) :
    (Environment.quiet clock).respond calls world wanted =
      answered (.quiet clock) calls world wanted :=
  respond_of_no_fault rfl

theorem not_retried_of_key (found : world.peers.row? callerId = some row)
    (stored : keyStored world.secrets callerId = true) :
    ¬ Retried crates world callerId request := by
  intro retried
  have named := (PeerTable.row?_eq_some_iff.mp found).2
  have answered := (retried (.quiet fun _ => 0) fun _ _ => rfl).1
  simp only [Environment.paired, pair, Prog.alone_call, respond_quiet,
    Gossip.answered, found, Option.map_some] at answered
  cases refused : refusal crates row.toPeer request with
  | some response =>
    simp only [refused, Prog.alone_done] at answered
    have success : refusal crates row.toPeer request =
        some ⟨.noContent, response.body⟩ := by
      rw [refused, ← answered]
    exact refusal_ne_noContent success
  | none =>
    simp only [refused, Prog.alone_call, named, stored, Bool.or_true,
      if_true, Prog.alone_done, respond_quiet,
      Gossip.answered] at answered
    cases answered

/-- A pairing answered with 503 can be made again exactly where it failed
before its key was in the vault. -/
theorem retried_iff_failsEarly (crates : Crates) (trims : crates.TrimsUrls)
    (environment : Environment) (world : World) (callerId : Nat)
    (request : PairRequest) (row : PeerRow)
    (found : world.peers.row? callerId = some row)
    (empty : world.OutboundEmpty row)
    (valid : refusal crates row.toPeer request = none)
    (failed :
      (environment.paired crates world callerId request).value.status =
        .serviceUnavailable) :
    Retried crates (environment.paired crates world callerId request).world
        callerId request ↔
      environment.FailsEarly callerId request := by
  by_cases early : environment.FailsEarly callerId request
  · rw [paired_of_failsEarly found valid empty early]
    exact ⟨fun _ => early, fun _ => retried_of_empty trims found valid empty⟩
  · refine ⟨fun retried => ?_, fun holds => absurd holds early⟩
    obtain ⟨address, normal⟩ := gossipUrl_of_valid trims valid
    rcases paired_of_not_failsEarly found valid empty early normal with
      ⟨detail, -, stopped⟩ | ⟨-, finished⟩
    · rw [stopped] at retried
      have known : (world.withKey callerId request.key).peers.row? callerId =
          some row := found
      refine absurd retried (not_retried_of_key known ?_)
      simp only [keyStored, World.withKey, Secrets.get_put_same]
    · rw [finished, finishPair_status] at failed
      cases failed

/-- What has to come together for `pair` to pin an identity that was not
pinned before: the record is not dated too far ahead, no row carries its key,
and the two calls that pin it succeed. -/
structure Environment.Introduces (environment : Environment) (world : World)
    (callerId : Nat) (record : EndpointRecord) : Prop where
  dated : record.signedAt ≤
    Rust.saturatingAdd (environment.clock 5) maxFutureSkewSecs
  unlisted : world.Unlisted record.pubkey
  lists : environment.fault 4 .listPeers = none
  binds : environment.fault 7 (.bindPeerPubkey callerId record.pubkey) = none

theorem of_refusal_eq_none {record : EndpointRecord}
    (carries : request.record = some record)
    (valid : refusal crates peer request = none) :
    crates.verify record = .ok () ∧
      (peer.pubkey = none ∨ peer.pubkey = some record.pubkey) := by
  cases address : validateUrl crates request.url with
  | error reason => simp [refusal, address] at valid
  | ok _ =>
    cases key : validateKey request.key with
    | error reason => simp [refusal, address, key] at valid
    | ok _ =>
      cases verified : crates.verify record with
      | error reason =>
        simp [refusal, address, key, carries, verified] at valid
      | ok _ =>
        refine ⟨rfl, ?_⟩
        cases pinned : peer.pubkey with
        | none => exact .inl rfl
        | some other =>
          simpa [refusal, address, key, carries, verified, pinned]
            using valid

theorem storeOutbound_of_noContent
    (success : (environment.paired crates world callerId
      request).value.status = .noContent) :
    ∃ row, world.peers.row? callerId = some row ∧
      refusal crates row.toPeer request = none ∧
        environment.paired crates world callerId request =
          (storeOutbound crates row.toPeer request).alone environment.respond
            2 world := by
  unfold Environment.paired pair at success ⊢
  rw [Prog.alone_call] at success ⊢
  cases first : environment.fault 0 (.peer callerId) with
  | some detail =>
    rw [respond_fault first rfl] at success
    cases success
  | none =>
    rw [respond_of_no_fault first] at success ⊢
    simp only [answered] at success ⊢
    cases found : world.peers.row? callerId with
    | none =>
      rw [found] at success
      cases success
    | some row =>
      refine ⟨row, rfl, ?_⟩
      simp only [found, Option.map_some] at success ⊢
      cases refused : refusal crates row.toPeer request with
      | some response =>
        simp only [refused, Prog.alone_done] at success
        have succeeds : refusal crates row.toPeer request =
            some ⟨.noContent, response.body⟩ := by
          rw [refused, ← success]
        exact absurd succeeds refusal_ne_noContent
      | none =>
        refine ⟨rfl, ?_⟩
        simp only [refused, Prog.alone_call] at success ⊢
        cases second : environment.fault 1 .openVault with
        | some detail =>
          rw [respond_fault second rfl] at success
          cases success
        | none =>
          rw [respond_of_no_fault second] at success ⊢
          simp only [answered] at success ⊢
          split at success
          · cases success
          · rename_i empty
            rw [if_neg empty]

theorem finishPair_of_noContent (named : peer.id = callerId)
    (success : ((storeOutbound crates peer request).alone environment.respond
      2 world).value.status = .noContent) :
    ∃ address, (storeOutbound crates peer request).alone environment.respond 2
        world =
      (finishPair crates peer request).alone environment.respond 4
        ((world.withKey callerId request.key).setPeerGossipUrl callerId
          address) := by
  unfold storeOutbound at success ⊢
  rw [Prog.alone_call, named] at success ⊢
  cases third : environment.fault 2
      (.vaultPut (peerGossipKey callerId) request.key) with
  | some detail =>
    rw [respond_fault third rfl] at success
    cases success
  | none =>
    rw [respond_of_no_fault third] at success ⊢
    simp only [answered] at success ⊢
    cases normal : gossipUrl crates (some request.url) with
    | error reason =>
      rw [normal] at success
      cases success
    | ok address =>
      simp only [normal, Prog.alone_call] at success ⊢
      cases fourth : environment.fault 3
          (.setPeerGossipUrl callerId address) with
      | some detail =>
        rw [respond_fault fourth rfl] at success
        cases success
      | none =>
        refine ⟨address, ?_⟩
        rw [respond_of_no_fault fourth] at success ⊢
        simp only [answered] at success ⊢
        cases known : (world.peers.row? callerId).isSome with
        | false =>
          rw [known] at success
          cases success
        | true => rfl

theorem boundTo_setPeerGossipUrl {address : Option String} :
    BoundTo callerId pubkey
        ((world.withKey callerId key).setPeerGossipUrl callerId address) ↔
      BoundTo callerId pubkey world := by
  simp only [BoundTo, World.withKey, World.setPeerGossipUrl,
    PeerTable.row?_update, if_true, Option.map_eq_some_iff]
  constructor
  · rintro ⟨_, ⟨row, found, rfl⟩, bound⟩
    exact ⟨row, found, bound⟩
  · rintro ⟨row, found, bound⟩
    exact ⟨_, ⟨row, found, rfl⟩, bound⟩

theorem unlisted_iff_row? :
    world.Unlisted pubkey ↔
      ∀ id row, world.peers.row? id = some row →
        row.pubkey ≠ some pubkey := by
  constructor
  · intro unlisted id row found
    exact unlisted row (PeerTable.row?_eq_some_iff.mp found).1
  · intro unlisted row member
    exact unlisted row.id row (PeerTable.row?_eq_some_iff.mpr ⟨member, rfl⟩)

theorem unlisted_setPeerGossipUrl {address : Option String} :
    ((world.withKey callerId key).setPeerGossipUrl callerId address).Unlisted
        pubkey ↔ world.Unlisted pubkey := by
  simp only [unlisted_iff_row?, World.withKey, World.setPeerGossipUrl,
    PeerTable.row?_update]
  constructor
  · intro unlisted id row found
    by_cases same : id = callerId
    · exact unlisted id { row with gossipUrl := address }
        (by simp [same ▸ found, same])
    · exact unlisted id row (by simp [found, same])
  · intro unlisted id row found
    split at found
    · obtain ⟨before, held, rfl⟩ := Option.map_eq_some_iff.mp found
      exact unlisted id before held
    · exact unlisted id row found

section Ingest

variable {record : EndpointRecord}
  (found : world.peers.row? callerId = some row)
  (unbound : row.pubkey = none)
include found unbound

theorem not_boundTo_of_unbound {pubkey : String} :
    ¬ BoundTo callerId pubkey world := by
  rintro ⟨other, held, bound⟩
  rw [found] at held
  cases held
  rw [unbound] at bound
  cases bound

/-- A record that is dated too far ahead, or whose key a row carries, leaves
its presenter unbound. -/
theorem ingested_one_unbound
    (barred : ¬ (crates.admissible (environment.clock 1) record = true ∧
      world.Unlisted record.pubkey)) :
    ¬ BoundTo callerId record.pubkey
        (environment.ingested crates world callerId [record]).world := by
  rintro ⟨other, held, bound⟩
  have kept : ∀ calls now wanted,
      (IngestCall wanted ∧ ∀ id pubkey, wanted ≠ .bindPeerPubkey id pubkey) →
        BoundWithin callerId (fun _ => False) now →
          BoundWithin callerId (fun _ => False)
            (environment.respond calls now wanted).2 := by
    rintro calls now wanted ⟨ingests, noBind⟩ within
    exact within.respond ingests fun pubkey asked _ =>
      noBind callerId pubkey asked
  have within : BoundWithin callerId (fun _ => False)
      (environment.ingested crates world callerId [record]).world := by
    refine ingested_keeps kept ?_ ?_
    · intro state turn member
      rw [List.mem_singleton.mp (List.mem_of_mem_take member)]
      apply ingestRecord_only
      · exact ⟨trivial, nofun⟩
      · intros
        exact ⟨trivial, nofun⟩
      · intro subject _
        exact ⟨trivial, nofun⟩
      · intro admissible absent
        exact absurd ⟨admissible, unlisted_of_byPubkey absent⟩ barred
    · intro before same pubkey key
      rw [found] at same
      cases same
      rw [unbound] at key
      cases key
  exact within other held record.pubkey bound

theorem ingestRecord_bind_fails {state : IngestState} {detail : String}
    (admissible : crates.admissible (environment.clock 1) record = true)
    (unlisted : world.Unlisted record.pubkey)
    (fault : environment.fault calls
      (.bindPeerPubkey callerId record.pubkey) = some detail) :
    ((ingestRecord crates (environment.snapshot world callerId) state
      record).alone environment.respond calls world).world = world := by
  have free := presenterUnbound_of_row? environment found unbound
  have absent : byPubkey (environment.snapshot world callerId).peers
      record.pubkey = none :=
    byPubkey_eq_none_of_unlisted unlisted
  unfold ingestRecord Snapshot.subjectOf
  rw [if_pos (by exact admissible), absent]
  simp only [free, if_true, Prog.bind_call, Prog.alone_call]
  simp only [Environment.snapshot, respond_fault fault rfl, Prog.bind_done,
    Prog.alone_done]

/-- One record of an unbound presenter binds them exactly where nothing is in
the way. -/
theorem ingested_one_binds_iff :
    BoundTo callerId record.pubkey
        (environment.ingested crates world callerId [record]).world ↔
      (crates.admissible (environment.clock 1) record = true ∧
          world.Unlisted record.pubkey) ∧
        environment.fault 0 .listPeers = none ∧
          environment.fault 3 (.bindPeerPubkey callerId record.pubkey) =
            none := by
  by_cases free : crates.admissible (environment.clock 1) record = true ∧
      world.Unlisted record.pubkey
  case neg =>
    exact ⟨fun bound => absurd bound
      (ingested_one_unbound found unbound free), fun holds =>
        absurd holds.1 free⟩
  case pos =>
    cases listed : environment.fault 0 .listPeers with
    | some detail =>
      rw [ingested_of_fault listed]
      simp [not_boundTo_of_unbound found unbound]
    | none =>
      have bindable : world.bindable callerId record.pubkey = true := by
        simp [World.bindable, found, unbound]
      rw [Environment.ingested, ingest_alone listed,
        Environment.ingestLoop, maxRecords, List.take_succ_cons,
        List.take_nil, Prog.fold_cons, Prog.alone_bind]
      simp only [Prog.fold_nil, Prog.alone_done]
      cases fault : environment.fault 3
          (.bindPeerPubkey callerId record.pubkey) with
      | none =>
        rw [ingestRecord_binds environment _ 3 found unbound free.1
          free.2 fault bindable, settleRecord]
        refine ⟨fun _ => ⟨free, trivial, rfl⟩, fun _ => ?_⟩
        split
        · exact boundTo_bindPeerPubkey found
        · exact (acceptRecord_ingests _ _ _ _).alone
            (BoundTo callerId record.pubkey)
            (fun _ _ _ ingests bound => bound.respond ingests)
            (boundTo_bindPeerPubkey found)
      | some detail =>
        rw [ingestRecord_bind_fails found unbound free.1 free.2 fault]
        simp [not_boundTo_of_unbound found unbound]

end Ingest

/-- A pairing answered with success leaves the caller bound to the key of the
record they sent exactly where they were bound to it before, or the record can
introduce them. -/
theorem pinned_iff_introduces (crates : Crates) (environment : Environment)
    (world : World) (callerId : Nat) (request : PairRequest)
    (record : EndpointRecord) (carries : request.record = some record)
    (success :
      (environment.paired crates world callerId request).value.status =
        .noContent) :
    BoundTo callerId record.pubkey
        (environment.paired crates world callerId request).world ↔
      BoundTo callerId record.pubkey world ∨
        environment.Introduces world callerId record := by
  obtain ⟨row, found, valid, paired⟩ := storeOutbound_of_noContent success
  have named := (PeerTable.row?_eq_some_iff.mp found).2
  rw [paired] at success
  obtain ⟨address, finished⟩ := finishPair_of_noContent named success
  obtain ⟨verified, pinned⟩ := of_refusal_eq_none carries valid
  let stored := (world.withKey callerId request.key).setPeerGossipUrl callerId
    address
  have ended : ((finishPair crates row.toPeer request).alone
      environment.respond 4 stored).world =
        ((environment.after 4).ingested crates stored callerId
          [record]).world := by
    simp only [finishPair, carries, Prog.alone_bind, Prog.alone_done, named]
    exact alone_after _ 4
  rw [paired, finished, ended]
  have before : BoundTo callerId record.pubkey stored ↔
      BoundTo callerId record.pubkey world := boundTo_setPeerGossipUrl
  rcases pinned with unbound | bound
  · have known : stored.peers.row? callerId =
        some { row with gossipUrl := address } := by
      simp [stored, World.withKey, World.setPeerGossipUrl,
        PeerTable.row?_update, found]
    have listed : stored.Unlisted record.pubkey ↔
        world.Unlisted record.pubkey := unlisted_setPeerGossipUrl
    rw [ingested_one_binds_iff known unbound, listed]
    constructor
    · rintro ⟨⟨admissible, unlisted⟩, lists, binds⟩
      have dated := (Bool.and_eq_true_iff.mp admissible).2
      exact .inr ⟨of_decide_eq_true dated, unlisted, lists, binds⟩
    · rintro (bound | ⟨dated, unlisted, lists, binds⟩)
      · exact absurd bound (not_boundTo_of_unbound found unbound)
      · refine ⟨⟨?_, unlisted⟩, lists, binds⟩
        rw [Crates.admissible, verified]
        exact decide_eq_true dated
  · have bound : BoundTo callerId record.pubkey world := ⟨row, found, bound⟩
    refine ⟨fun _ => .inl bound, fun _ => ?_⟩
    exact (ingest_only _ _).alone (BoundTo callerId record.pubkey)
      (fun _ _ _ ingests bound => bound.respond ingests) (before.mpr bound)

/-- The crates on the one address that comes up. -/
def samsCrates : Crates :=
  { plainCrates with
    parseUrl := fun url =>
      if Rust.trim url = "http://sam/" then .ok ("http", "http://sam/")
      else .error "relative URL without a base" }

def samsRequest : PairRequest :=
  ⟨"http://sam/", "sam's key for us",
    some (signedRecord "sam's key" "http://sam:6969" 200)⟩

def samsRow : PeerRow := ⟨freshPeer 1 "sam" "hash of sam", none⟩

/-- One call of the handler fails, the one this number of calls in. -/
def failingAt (calls : Nat) : Environment where
  clock := fun _ => 300
  fault := fun count _ => if count = calls then some "disk full" else none
  lighthouse := fun _ _ _ => .error "connection refused"

theorem samsCrates_trimsUrls : samsCrates.TrimsUrls := by
  intro url parsed read
  have same : Rust.trim url = "http://sam/" := by
    simp only [samsCrates] at read
    split at read
    · assumption
    · cases read
  rw [same]
  exact ⟨by decide, ("http", "http://sam/"), by decide +kernel⟩

/-- The vault write fails, and Sam's second try is stored. -/
theorem sam_pairs_again :
    Retried samsCrates
      ((failingAt 2).paired samsCrates samAndAlex 1 samsRequest).world 1
        samsRequest :=
  (retried_iff_failsEarly samsCrates samsCrates_trimsUrls (failingAt 2)
    samAndAlex 1 samsRequest samsRow (by decide) ⟨rfl, by decide +kernel⟩
    (by decide +kernel) (by decide +kernel)).mpr
      (.inr (.inr (by decide)))

/-- The row write fails, and Sam's second try is turned away. -/
theorem sam_turned_away :
    ((failingAt 3).paired samsCrates samAndAlex 1 samsRequest).value.status =
        .serviceUnavailable ∧
      ¬ Retried samsCrates
        ((failingAt 3).paired samsCrates samAndAlex 1 samsRequest).world 1
          samsRequest := by
  refine ⟨by decide +kernel, fun retried => ?_⟩
  have answered := (retried (.quiet fun _ => 400) fun _ _ => rfl).1
  have refused : ((Environment.quiet fun _ => 400).paired samsCrates
      ((failingAt 3).paired samsCrates samAndAlex 1 samsRequest).world 1
        samsRequest).value.status = .conflict := by decide +kernel
  rw [refused] at answered
  cases answered

/-- Sam's record pins his identity. -/
theorem sam_pinned :
    BoundTo 1 "sam's key" ((Environment.quiet fun _ => 300).paired samsCrates
      samAndAlex 1 samsRequest).world := by
  refine (pinned_iff_introduces samsCrates (.quiet fun _ => 300) samAndAlex 1
    samsRequest (signedRecord "sam's key" "http://sam:6969" 200) rfl
    (by decide +kernel)).mpr (.inr ⟨by decide, ?_, rfl, rfl⟩)
  have unlisted : ∀ row ∈ samAndAlex.peers.rows,
      row.pubkey ≠ some "sam's key" := by decide
  exact unlisted

/-- A record dated a day ahead is answered with success and pins nothing. -/
def earlyRequest : PairRequest :=
  ⟨"http://sam/", "sam's key for us",
    some (signedRecord "sam's key" "http://sam:6969" 86700)⟩

theorem sam_not_pinned :
    ((Environment.quiet fun _ => 300).paired samsCrates samAndAlex 1
        earlyRequest).value.status = .noContent ∧
      ¬ BoundTo 1 "sam's key" ((Environment.quiet fun _ => 300).paired
        samsCrates samAndAlex 1 earlyRequest).world := by
  refine ⟨by decide +kernel, ?_⟩
  rintro ⟨row, found, bound⟩
  have unbound : ((Environment.quiet fun _ => 300).paired samsCrates
      samAndAlex 1 earlyRequest).world.peers.row? 1 =
        some { samsRow with gossipUrl := some "http://sam/" } := by
    decide +kernel
  rw [unbound] at found
  cases found
  cases bound

end Gossip

end Sharerr
