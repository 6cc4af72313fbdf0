import Sharerr.Gossip.Rules

/-!
# A friend's identity, and whose endpoints are recorded

A row's `pubkey` is written by one conditional update only, so it never
changes once it is set, whatever runs side by side.  That makes the decisions
a handler takes on an old reading of the peers safe: the row it found a record
for is still bound to the record's key when the endpoints are written.
-/

namespace Sharerr

namespace Gossip

open Process

/-- The row `id`, as long as it exists, is bound to `pubkey`. -/
def Bound (id : Nat) (pubkey : String) (world : World) : Prop :=
  id < world.peers.nextId ∧
    ∀ row, world.peers.row? id = some row → row.pubkey = some pubkey

variable {id : Nat} {pubkey : String} {world : World} {request : Call}
  {answer : Answer request} {after before moment : Moment Nat World Call Answer}
  {peers : List Peer} {record : EndpointRecord}

theorem Bound.apply (bound : Bound id pubkey world) {write : Write}
    (enabled : write.Enabled world) : Bound id pubkey (write.apply world) := by
  refine ⟨Nat.lt_of_lt_of_le bound.1 write.nextId_le_apply, ?_⟩
  intro row found
  rw [write.row?_apply bound.1] at found
  cases held : world.peers.row? id with
  | none =>
    rw [held] at found
    cases write <;> simp [Write.onRow] at found
  | some before =>
    have identity := bound.2 before held
    rw [held] at found
    cases write with
    | bind target other =>
      simp only [Write.onRow] at found
      split at found
      · rename_i same
        subst same
        cases found
        simpa [Write.Enabled, World.bindable, held, identity,
          eq_comm] using enabled
      · cases found
        exact identity
    | endpoint | create | secret =>
      cases found
      exact identity
    | record | url | revoke | delete =>
      simp only [Write.onRow] at found
      split at found <;> cases found <;> exact identity

theorem Bound.performed (thread : Nat) {after : World}
    (performed : perform thread world request answer = some after)
    (bound : Bound id pubkey world) : Bound id pubkey after := by
  rcases perform_cases performed with ⟨-, rfl⟩ | ⟨write, -, enabled, rfl⟩
  · exact bound
  · exact bound.apply enabled

theorem bound_of_listed {peer : Peer} (listed : peer ∈ world.peers.listPeers)
    (identity : peer.pubkey = some pubkey) : Bound peer.id pubkey world := by
  obtain ⟨row, found, rfl⟩ := PeerTable.row?_of_mem_listPeers listed
  refine ⟨PeerTable.row?_lt_nextId found, ?_⟩
  intro other sameRow
  rw [found] at sameRow
  cases sameRow
  exact identity

theorem bound_of_bind (thread : Nat) {after : World}
    (performed : perform thread world (.bindPeerPubkey id pubkey) (.ok true) =
      some after) : Bound id pubkey after := by
  obtain ⟨guard, performed⟩ := Option.ite_none_right_eq_some.mp performed
  cases performed
  obtain ⟨row, found, -⟩ := (Option.any_eq_true ..).mp guard.symm
  have old := PeerTable.row?_lt_nextId found
  refine ⟨old, ?_⟩
  intro after sameRow
  rw [show world.bindPeerPubkey id pubkey =
      (Write.bind id pubkey).apply world from rfl,
    Write.row?_apply _ old, found] at sameRow
  simp only [Write.onRow, if_true, Option.map_some,
    Option.some.injEq] at sameRow
  subst sameRow
  rfl

/-- A sighting that reaches us through a record, first-hand or not. -/
def ThroughRecord (via : ObservedVia) (origin : Option EndpointRecord) :
    Prop :=
  via = .gossip ∨ via = .lighthouse ∨ origin.isSome

/-- `record` is where a sighting of `id` comes from: its signature holds, it
names that endpoint, and `id` is bound to its key. -/
structure Source (crates : Crates) (world : World) (id : Nat)
    (kind : EndpointKind) (addr : String) (observedAt : Option Int)
    (record : EndpointRecord) : Prop where
  verified : crates.verify record = .ok ()
  named : ∃ endpoint ∈ record.endpoints,
    EndpointKind.parse endpoint.kind = some kind ∧ addr = endpoint.addr ∧
      observedAt = some endpoint.observedAt
  bound : Bound id record.pubkey world

/-- Every write of an endpoint that comes through a record has its source. -/
def Sourced (crates : Crates) (world : World)
    (event : Event Nat Call Answer) : Prop :=
  ∀ now id kind addr observedAt via origin,
    event.request =
        .recordPeerEndpoint now id kind addr observedAt via origin →
      ThroughRecord via origin →
        ∃ record, origin = some record ∧
          Source crates world id kind addr observedAt record

def identityProtocol (crates : Crates) : Protocol Nat World Call Answer where
  perform := perform
  condition := .always
  invariant _ := True
  guarantee _ before after := ∀ event, after.past = before.past ++ [event] →
    Sourced crates before.world event

variable {crates : Crates} {thread : Nat}

theorem Bound.later (bound : Bound id pubkey before.world)
    (performed : Performed (identityProtocol crates) thread before request
      answer after) : Bound id pubkey after.world :=
  Bound.performed thread performed.performed bound

theorem bound_stable (id : Nat) (pubkey : String) :
    (identityProtocol crates).Stable thread fun moment =>
      Bound id pubkey moment.world :=
  .of_performed fun _ _ _ _ _ performed bound => bound.later performed

/-- A call that records no endpoint through a record, under what no call
disturbs. -/
theorem safe_of_call {α : Type} {next : Answer request → Program α}
    {post : α → Moment Nat World Call Answer → Prop}
    {property : Moment Nat World Call Answer → Prop}
    (plain : ∀ now id kind addr observedAt via origin, request =
        .recordPeerEndpoint now id kind addr observedAt via origin →
      ¬ ThroughRecord via origin)
    (stable : (identityProtocol crates).Stable thread property)
    (holds : property moment)
    (rest : ∀ before answer after, property before →
      Performed (identityProtocol crates) thread before request answer
          after →
        Safe (identityProtocol crates) thread post (next answer) after) :
    Safe (identityProtocol crates) thread post (.call request next)
      moment := by
  apply Safe.call stable holds
  intro before answer after held performed
  refine ⟨trivial, ?_, rest before answer after held performed⟩
  intro event past now id kind addr observedAt via origin requested through
  rw [performed.past] at past
  cases List.singleton_inj.mp (List.append_cancel_left past)
  exact absurd through (plain _ _ _ _ _ _ _ requested)

/-- Every listed peer that had a key is bound to it. -/
def Known (peers : List Peer) (world : World) : Prop :=
  ∀ peer ∈ peers, ∀ pubkey, peer.pubkey = some pubkey →
    Bound peer.id pubkey world

theorem Known.later (known : Known peers before.world)
    (performed : Performed (identityProtocol crates) thread before request
      answer after) : Known peers after.world :=
  fun peer member pubkey identity =>
    (known peer member pubkey identity).later performed

theorem known_stable (peers : List Peer) :
    (identityProtocol crates).Stable thread fun moment =>
      Known peers moment.world :=
  .of_performed fun _ _ _ _ _ performed known => known.later performed

theorem known_of_listPeers
    (performed : Performed (identityProtocol crates) thread before .listPeers
      (.ok peers) after) : Known peers after.world := by
  obtain ⟨same, unchanged⟩ := of_guarded performed.performed
  rw [← unchanged, same]
  intro peer member pubkey identity
  exact bound_of_listed member identity

theorem known_of_activePeers
    (performed : Performed (identityProtocol crates) thread before
      .activePeers (.ok peers) after) : Known peers after.world := by
  obtain ⟨same, unchanged⟩ := of_guarded performed.performed
  rw [← unchanged, same]
  intro peer member pubkey identity
  exact bound_of_listed (List.mem_filter.mp member).1 identity

/-- The endpoints of a verified record are recorded for the peer bound to its
key. -/
theorem safe_recordEndpoints {via : ObservedVia}
    (verified : crates.verify record = .ok ())
    (bound : Bound id record.pubkey moment.world)
    (known : Known peers moment.world) :
    Safe (identityProtocol crates) thread
      (fun _ after => Known peers after.world)
      (recordEndpoints id record via) moment := by
  let kept := fun (items : List RecordEndpoint) (_ : Unit)
      (moment : Moment Nat World Call Answer) =>
    (∀ item ∈ items, item ∈ record.endpoints) ∧
      Bound id record.pubkey moment.world ∧ Known peers moment.world
  have stable : (identityProtocol crates).Stable thread fun moment =>
      Bound id record.pubkey moment.world ∧ Known peers moment.world :=
    .of_performed fun _ _ _ _ _ performed ⟨bound, known⟩ =>
      ⟨bound.later performed, known.later performed⟩
  refine Safe.mono
    (Safe.fold kept ?_ _ _ _ ⟨fun _ member => member, bound, known⟩)
    fun _ _ kept => kept.2.2
  intro endpoint endpoints _ moment ⟨members, held⟩
  have rest : ∀ item ∈ endpoints, item ∈ record.endpoints :=
    fun item member => members item (List.mem_cons_of_mem _ member)
  have own : endpoint ∈ record.endpoints := members endpoint (by simp)
  cases read : EndpointKind.parse endpoint.kind with
  | none => exact ⟨rest, held⟩
  | some kind =>
    apply safe_of_call (by simp) stable held
    intro before now after held performed
    apply Safe.call stable
      ⟨held.1.later performed, held.2.later performed⟩
    intro before answer after held performed
    refine ⟨trivial, ?_, rest, held.1.later performed,
      held.2.later performed⟩
    intro event past now' id' kind' addr observedAt via' origin requested _
    rw [performed.past] at past
    cases List.singleton_inj.mp (List.append_cancel_left past)
    cases requested
    exact ⟨record, rfl, verified, ⟨endpoint, own, read, rfl, rfl⟩, held.1⟩

/-- The subject of a record is bound to its key, by an old reading or by the
bind just made. -/
theorem safe_subjectOf {snapshot : Snapshot}
    (known : Known snapshot.peers moment.world) :
    Safe (identityProtocol crates) thread
      (fun subject after => Known snapshot.peers after.world ∧
        ∀ id, subject = some id → Bound id record.pubkey after.world)
      (snapshot.subjectOf record) moment := by
  unfold Snapshot.subjectOf
  cases found : byPubkey snapshot.peers record.pubkey with
  | some subject =>
    obtain ⟨member, identity⟩ := byPubkey_eq_some found
    refine ⟨known, ?_⟩
    intro id chosen
    split at chosen
    · cases chosen
    · cases chosen
      exact known subject member record.pubkey identity
  | none =>
    by_cases unbound : snapshot.presenterUnbound
    · simp only [unbound, if_true]
      apply safe_of_call (by simp) (known_stable snapshot.peers) known
      intro before answer after known performed
      have known := known.later performed
      match answer, performed with
      | .ok true, performed =>
        refine ⟨known, ?_⟩
        rintro id ⟨⟩
        exact bound_of_bind thread performed.performed
      | .ok false, _ => exact ⟨known, by simp⟩
      | .error _, _ => exact ⟨known, by simp⟩
    · simp only [unbound]
      exact ⟨known, by simp⟩

theorem safe_ingestRecord (snapshot : Snapshot) {state : IngestState}
    (known : Known snapshot.peers moment.world) :
    Safe (identityProtocol crates) thread
      (fun _ after => Known snapshot.peers after.world)
      (ingestRecord crates snapshot state record) moment := by
  unfold ingestRecord
  split
  · rename_i admissible
    have verified : crates.verify record = .ok () := by
      have := (Bool.and_eq_true _ _ ▸ admissible).1
      cases checked : crates.verify record with
      | ok => rfl
      | error => simp [checked, Except.toBool] at this
    apply Safe.bind (safe_subjectOf known)
    rintro (_ | subject) moment ⟨known, subjectBound⟩
    · exact known
    · simp only [settleRecord]
      split
      · exact known
      · have bound := subjectBound subject rfl
        apply Safe.bind (safe_recordEndpoints verified bound known)
        intro _ moment known
        apply safe_of_call (by simp) (known_stable snapshot.peers) known
        intro before answer after known performed
        have known := known.later performed
        cases answer with
        | error => exact known
        | ok => exact known
  · exact known

theorem safe_ingest (presenterId : Nat) (records : List EndpointRecord)
    (moment : Moment Nat World Call Answer) :
    Safe (identityProtocol crates) thread (fun _ _ => True)
      (ingest crates presenterId records) moment := by
  apply safe_of_call (by simp) always_stable trivial
  intro before answer after _ listed
  cases answer with
  | error => trivial
  | ok peers =>
    have known := known_of_listPeers listed
    apply safe_of_call (by simp) (known_stable peers) known
    intro before now after known performed
    have known := known.later performed
    apply safe_of_call (by simp) (known_stable peers) known
    intro before answer after known performed
    have known := known.later performed
    refine Safe.bind (Safe.fold (fun _ _ moment => Known peers moment.world)
      (fun _ _ _ _ known => safe_ingestRecord ⟨presenterId, peers, now⟩ known)
      _ _ _ known) ?_
    intro _ _ _
    trivial

theorem safe_lookupUrls {keyHash : String} (urls : List String)
    (bound : Bound id pubkey moment.world) :
    Safe (identityProtocol crates) thread (fun _ _ => True)
      (lookupUrls crates id pubkey keyHash urls) moment := by
  induction urls generalizing moment with
  | nil => trivial
  | cons url urls ih =>
    apply safe_of_call (by simp) (bound_stable id pubkey) bound
    intro before answer after bound performed
    have bound := bound.later performed
    cases answer with
    | error => exact ih bound
    | ok record =>
      simp only
      split
      · exact ih bound
      · rename_i usable
        rw [not_or, not_not, Bool.not_eq_false] at usable
        obtain ⟨rfl, checked⟩ := usable
        have verified : crates.verify record = .ok () := by
          cases read : crates.verify record with
          | ok => rfl
          | error => simp [read, Except.toBool] at checked
        have nobody : Known [] after.world := by simp [Known]
        exact (safe_recordEndpoints verified bound nobody).mono
          fun _ _ _ => trivial

theorem safe_lookupQuiet (urls : List String) (index : Nat)
    (moment : Moment Nat World Call Answer) :
    Safe (identityProtocol crates) thread (fun _ _ => True)
      (lookupQuiet crates urls index) moment := by
  apply safe_of_call (by simp) always_stable trivial
  intro before answer after _ _
  cases answer with
  | error => trivial
  | ok secrets =>
    apply safe_of_call (by simp) always_stable trivial
    intro before answer after _ listed
    cases answer with
    | error => trivial
    | ok peers =>
      have known := known_of_activePeers listed
      simp only
      split
      · trivial
      · rename_i peer chosen
        have member := List.mem_of_getElem? chosen
        unfold lookupQuietOne
        split
        · rename_i pubkey key identity _
          exact safe_lookupUrls urls (known peer member pubkey identity)
        · trivial

theorem keeps_ownCalls : KeepsOwnCalls (identityProtocol crates) thread := by
  intro before request answer after own performed
  refine ⟨trivial, ?_⟩
  intro event past now id kind addr observedAt via origin requested through
  rw [performed.past] at past
  cases List.singleton_inj.mp (List.append_cancel_left past)
  simp only at requested
  subst requested
  obtain ⟨rfl, rfl | rfl⟩ := own <;> simp [ThroughRecord] at through

/-- Along every interleaving of the handlers, a row's identity never changes
while the row exists, and an endpoint that is recorded through a record comes
from one whose signature holds and whose key the row is bound to. -/
theorem identity_bound_and_endpoints_own {world : World} {jobs : Nat → Job}
    {trace : List (Event Nat Call Answer)}
    {reached : Pool Nat World Call Answer Outcome}
    (run : Run perform .always (pool crates world jobs) trace reached) :
    (∀ later final id row laterRow pubkey,
      Run perform .always (pool crates world jobs) (trace ++ later) final →
        reached.world.peers.row? id = some row → row.pubkey = some pubkey →
          final.world.peers.row? id = some laterRow →
            laterRow.pubkey = some pubkey) ∧
    (∀ thread now id kind addr observedAt via origin next after,
      reached.threads thread =
          .call (.recordPeerEndpoint now id kind addr observedAt via origin)
            next →
        perform thread reached.world
            (.recordPeerEndpoint now id kind addr observedAt via origin)
            (.ok ()) = some after →
          ThroughRecord via origin →
            ∃ record row, origin = some record ∧
              crates.verify record = .ok () ∧
              (∃ endpoint ∈ record.endpoints,
                EndpointKind.parse endpoint.kind = some kind ∧
                  addr = endpoint.addr ∧
                    observedAt = some endpoint.observedAt) ∧
              reached.world.peers.row? id = some row ∧
                row.pubkey = some record.pubkey) := by
  constructor
  · intro later final id row laterRow pubkey whole found identity laterFound
    have bound : Bound id pubkey reached.world := by
      refine ⟨PeerTable.row?_lt_nextId found, ?_⟩
      intro other sameRow
      rw [found] at sameRow
      cases sameRow
      exact identity
    have kept := run.keeps
      (fun thread _ _ _ _ performed => Bound.performed thread performed)
      whole bound
    exact kept.2 laterRow laterFound
  · intro thread now id kind addr observedAt via origin next after waiting
      performed through
    have sound : Sound (identityProtocol crates) (fun _ _ _ => True) trace
        reached :=
      Run.sound (fun _ _ => always_stable) run
        ⟨trivial, fun thread => keeps_ownCalls.safe_program safe_ingest
          safe_lookupQuiet (jobs thread) _⟩
    have step : (identityProtocol crates).perform thread reached.world
        (.recordPeerEndpoint now id kind addr observedAt via origin)
        (.ok ()) = some after := performed
    obtain ⟨-, sourced⟩ :=
      sound.step (fun _ _ => always_stable) waiting trivial step
    obtain ⟨record, rfl, source⟩ :=
      sourced _ rfl now id kind addr observedAt via origin rfl through
    obtain ⟨exists_, -⟩ := of_guarded performed
    obtain ⟨row, found⟩ := Option.isSome_iff_exists.mp exists_
    exact ⟨record, row, rfl, source.verified, source.named, found,
      source.bound.2 row found⟩

/-- Sam is added and pushes a first record of his own. -/
def samJobs : Nat → Job
  | 0 => .createPeer "Sam" "sam-hash"
  | _ => .ingest 1 [signedRecord "sam-key" "http://sam:1" 90]

def samTrace : List (Event Nat Call Answer) :=
  [⟨0, .nowEpoch, (100 : Int)⟩,
    ⟨0, .createPeer "Sam" "sam-hash" 100,
      .ok (freshPeer 1 "Sam" "sam-hash")⟩,
    ⟨1, .listPeers, .ok [freshPeer 1 "Sam" "sam-hash"]⟩,
    ⟨1, .nowEpoch, (101 : Int)⟩,
    ⟨1, .peerGossipRecords [1], .ok []⟩,
    ⟨1, .bindPeerPubkey 1 "sam-key", .ok true⟩,
    ⟨1, .nowEpoch, (101 : Int)⟩]

theorem samTrace_replays :
    (replay perform (fun _ _ => true) [] (pool plainCrates .empty samJobs)
      samTrace).isSome := by
  decide +kernel

def samReached : Pool Nat World Call Answer Outcome :=
  (replay perform (fun _ _ => true) [] (pool plainCrates .empty samJobs)
    samTrace).get samTrace_replays

/-- The endpoint Sam's push is about to record is his own. -/
theorem samReached_endpoint_own :
    ∃ record row, some (signedRecord "sam-key" "http://sam:1" 90) =
        some record ∧
      plainCrates.verify record = .ok () ∧
      (∃ endpoint ∈ record.endpoints,
        EndpointKind.parse endpoint.kind = some .tracker ∧
          "http://sam:1" = endpoint.addr ∧
            some 90 = some endpoint.observedAt) ∧
      samReached.world.peers.row? 1 = some row ∧
        row.pubkey = some record.pubkey := by
  have run : Run perform .always (pool plainCrates .empty samJobs) samTrace
      samReached :=
    Run.of_replay (fun _ _ _ => trivial)
      (Option.some_get samTrace_replays).symm
  refine (identity_bound_and_endpoints_own run).2 1 101 1 .tracker
    "http://sam:1" (some 90) .direct _ _
    (samReached.world.recordPeerEndpoint 101 1 .tracker "http://sam:1"
      (some 90) .direct) rfl rfl ?_
  exact .inr (.inr rfl)

end Gossip

end Sharerr
