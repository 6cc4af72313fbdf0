import Sharerr.Gossip.Rules

/-!
# The stored record is the newest accepted one

`ingest` decides freshness on the `signed_at` values it read before its loop
and writes unconditionally.  Between that reading and the write another ingest
may store a newer record of the same subject, which the write then rewinds.

Where no such write falls in between, and neither of the two calls fails, the
stored `signed_at` of every peer is the greatest one accepted for it, at every
moment of every interleaving.
-/

namespace Sharerr

namespace Gossip

open Process

/-- The `signed_at` of the record stored for a peer. -/
def signedAtOf (world : World) (id : Nat) : Option Int :=
  ((world.peers.row? id).bind (·.gossipRecord)).bind StoredRecord.signedAt

/-- The `signed_at` an event stores for a peer. -/
def accepted (id : Nat) (event : Event Nat Call Answer) : Option Int :=
  match written event.request event.answer with
  | some (.record target signed) =>
    if target = id then some signed.signedAt else none
  | _ => none

/-- What a run accepted for a peer, oldest first. -/
def acceptedFor (id : Nat) (trace : List (Event Nat Call Answer)) :
    List Int :=
  trace.filterMap (accepted id)

/-- The greatest of the values accepted and the one there was before. -/
def newest (start : Option Int) (signedAts : List Int) : Option Int :=
  signedAts.foldl
    (fun best signedAt => some (best.elim signedAt (max signedAt))) start

/-- Reading every stored `signed_at`, as `ingest` does before its loop. -/
def isReading (event : Event Nat Call Answer) : Bool :=
  match event.request with
  | .peerGossipRecords _ => true
  | _ => false

/-- Nobody else stored a record for `id` since the last reading of
`thread`. -/
def undisturbed (thread id : Nat) (past : List (Event Nat Call Answer)) :
    Bool :=
  past.foldl
    (fun quiet event =>
      if event.thread = thread then quiet || isReading event
      else quiet && (accepted id event).isNone)
    true

/-- The steps on which `ingest` is right: its reading and its writes succeed,
and a write still finds what was read. -/
def onFreshReading (moment : Moment Nat World Call Answer) :
    Event Nat Call Answer → Bool
  | ⟨_, .peerGossipRecords _, .error _⟩ => false
  | ⟨_, .setPeerGossipRecord _ _, .error _⟩ => false
  | ⟨thread, .setPeerGossipRecord id _, .ok _⟩ =>
    undisturbed thread id moment.past
  | _ => true

def OnFreshReading : Condition Nat World Call Answer :=
  fun moment event => onFreshReading moment event = true

theorem acceptedFor_append (id : Nat) (past : List (Event Nat Call Answer))
    (event : Event Nat Call Answer) :
    acceptedFor id (past ++ [event]) =
      acceptedFor id past ++ (accepted id event).toList := by
  simp [acceptedFor, List.filterMap_append, List.filterMap_cons]
  cases accepted id event <;> rfl

theorem undisturbed_append (thread id : Nat)
    (past : List (Event Nat Call Answer)) (event : Event Nat Call Answer) :
    undisturbed thread id (past ++ [event]) =
      if event.thread = thread then
        undisturbed thread id past || isReading event
      else undisturbed thread id past && (accepted id event).isNone := by
  simp [undisturbed, List.foldl_append]

theorem newest_append (start : Option Int) (signedAts : List Int)
    (signedAt : Int) :
    newest start (signedAts ++ [signedAt]) =
      some ((newest start signedAts).elim signedAt (max signedAt)) := by
  simp [newest, List.foldl_append]

theorem le_newest {start : Option Int} {signedAt : Int}
    (known : start = some signedAt) (signedAts : List Int) :
    ∃ best, newest start signedAts = some best ∧ signedAt ≤ best := by
  induction signedAts using List.reverseRecOn with
  | nil => exact ⟨signedAt, known, le_refl _⟩
  | append_singleton signedAts next ih =>
    obtain ⟨best, found, le⟩ := ih
    refine ⟨max next best, ?_, le_trans le (le_max_right _ _)⟩
    rw [newest_append, found]
    rfl

theorem newest_eq_of_le {start : Option Int} {signedAts : List Int}
    {signedAt : Int}
    (rises : ∀ stored, newest start signedAts = some stored →
      stored ≤ signedAt) :
    newest start (signedAts ++ [signedAt]) = some signedAt := by
  rw [newest_append]
  cases found : newest start signedAts with
  | none => rfl
  | some stored => simp [rises stored found]

variable {request : Call} {answer : Answer request} {id : Nat} {row : PeerRow}
  {world : World} {after before moment : Moment Nat World Call Answer}
  {ids : List Nat} {stored : Nat → Option Int} {record : EndpointRecord}

/-- Only a write of the record changes what is stored of a row that stays. -/
theorem signedAtOf_performed (thread : Nat) {after : World}
    (performed : perform thread world request answer = some after)
    (old : id < world.peers.nextId) (found : after.peers.row? id = some row) :
    (∃ before, world.peers.row? id = some before) ∧
      signedAtOf after id =
        (accepted id ⟨thread, request, answer⟩).elim (signedAtOf world id)
          some := by
  rcases perform_cases performed with ⟨quiet, rfl⟩ | ⟨write, wrote, -, rfl⟩
  · refine ⟨⟨row, found⟩, ?_⟩
    simp [accepted, quiet]
  · have stays := write.row?_apply old
    rw [found] at stays
    cases held : world.peers.row? id with
    | none =>
      rw [held] at stays
      cases write <;> simp [Write.onRow] at stays
    | some before =>
      refine ⟨⟨before, rfl⟩, ?_⟩
      rw [held] at stays
      simp only [signedAtOf, found, held, accepted, wrote,
        Option.bind_some]
      cases write with
      | record target signed =>
        simp only [Write.onRow, Option.map_some] at stays
        by_cases same : id = target
        · subst same
          simp only [if_true, Option.some.injEq] at stays
          subst stays
          simp [StoredRecord.signedAt]
        · simp only [same, if_false, Option.some.injEq] at stays
          simp [stays, Ne.symm same]
      | delete target =>
        simp only [Write.onRow] at stays
        split at stays
        · cases stays
        · cases stays
          rfl
      | bind | url | revoke =>
        simp only [Write.onRow] at stays
        split at stays <;> cases stays <;> rfl
      | endpoint | create | secret =>
        cases stays
        rfl

/-- What holds at every moment of a run from `start`. -/
structure Newest (start : World) (moment : Moment Nat World Call Answer) :
    Prop where
  later : start.peers.nextId ≤ moment.world.peers.nextId
  given : ∀ id, acceptedFor id moment.past ≠ [] →
    id < moment.world.peers.nextId
  newest : ∀ id row, moment.world.peers.row? id = some row →
    signedAtOf moment.world id =
      newest (signedAtOf start id) (acceptedFor id moment.past)

/-- A write does not go below what is stored. -/
def Rises (world : World) (event : Event Nat Call Answer) : Prop :=
  ∀ id signedAt, accepted id event = some signedAt →
    id < world.peers.nextId ∧
      ∀ row stored, world.peers.row? id = some row →
        signedAtOf world id = some stored → stored ≤ signedAt

theorem nextId_performed (thread : Nat) {after : World}
    (performed : perform thread world request answer = some after) :
    world.peers.nextId ≤ after.peers.nextId := by
  rcases perform_cases performed with ⟨-, rfl⟩ | ⟨write, -, -, rfl⟩
  · exact Nat.le_refl _
  · exact write.nextId_le_apply

theorem signedAtOf_new (thread : Nat) {after : World}
    (performed : perform thread world request answer = some after)
    (new : world.peers.nextId ≤ id) (found : after.peers.row? id = some row) :
    signedAtOf after id = none := by
  rcases perform_cases performed with ⟨-, rfl⟩ | ⟨write, -, -, rfl⟩
  · rw [PeerTable.row?_eq_none_of_nextId_le new] at found
    cases found
  · obtain ⟨-, none, -⟩ := write.row?_apply_new new found
    simp [signedAtOf, found, none]

theorem Newest.step {start : World} {thread : Nat} (inv : Newest start before)
    (performed : perform thread before.world request answer = some after.world)
    (past : after.past = before.past ++ [⟨thread, request, answer⟩])
    (rises : Rises before.world ⟨thread, request, answer⟩) :
    Newest start after := by
  have grows := nextId_performed thread performed
  refine ⟨Nat.le_trans inv.later grows, ?_, ?_⟩
  · intro id some
    rw [past, acceptedFor_append] at some
    cases wrote : accepted id ⟨thread, request, answer⟩ with
    | none =>
      rw [wrote] at some
      exact Nat.lt_of_lt_of_le (inv.given id (by simpa using some)) grows
    | some signedAt =>
      exact Nat.lt_of_lt_of_le (rises id signedAt wrote).1 grows
  · intro id row found
    rw [past, acceptedFor_append]
    by_cases old : id < before.world.peers.nextId
    · obtain ⟨⟨row, held⟩, stored⟩ :=
        signedAtOf_performed thread performed old found
      have earlier := inv.newest id row held
      rw [stored]
      cases wrote : accepted id ⟨thread, request, answer⟩ with
      | none => simpa using earlier
      | some signedAt =>
        rw [Option.elim_some, Option.toList_some, newest_eq_of_le]
        intro best found
        rw [← earlier] at found
        exact (rises id signedAt wrote).2 row best held found
    · have new : before.world.peers.nextId ≤ id := Nat.not_lt.mp old
      have nothing : acceptedFor id before.past = [] := by
        by_contra some
        exact old (inv.given id some)
      have quiet : accepted id ⟨thread, request, answer⟩ = none := by
        cases wrote : accepted id ⟨thread, request, answer⟩ with
        | none => rfl
        | some signedAt => exact absurd (rises id signedAt wrote).1 old
      have absent : start.peers.row? id = none :=
        PeerTable.row?_eq_none_of_nextId_le (Nat.le_trans inv.later new)
      rw [signedAtOf_new thread performed new found, nothing, quiet]
      simp [Gossip.newest, signedAtOf, absent]

def freshnessProtocol (start : World) :
    Protocol Nat World Call Answer where
  perform := perform
  condition := OnFreshReading
  invariant := Newest start
  guarantee _ _ _ := True

/-- The values read for `ids` are the stored ones, as long as nobody else
stored a record in between. -/
def Current (thread : Nat) (ids : List Nat) (stored : Nat → Option Int)
    (moment : Moment Nat World Call Answer) : Prop :=
  ∀ id ∈ ids, id < moment.world.peers.nextId ∧
    (undisturbed thread id moment.past = true →
      ∀ row, moment.world.peers.row? id = some row →
        stored id = signedAtOf moment.world id)

variable {start : World} {thread : Nat}

theorem did {actor : Nat}
    (performed : Performed (freshnessProtocol start) actor before request
      answer after) :
    perform actor before.world request answer = some after.world :=
  performed.performed

/-- Nothing but a reading of its own and a write of its own changes what an
ingest knows. -/
theorem Current.later {actor : Nat} (current : Current thread ids stored before)
    (performed : Performed (freshnessProtocol start) actor before request
      answer after)
    (plain : actor = thread → isReading ⟨actor, request, answer⟩ = false ∧
      ∀ id, accepted id ⟨actor, request, answer⟩ = none) :
    Current thread ids stored after := by
  intro id member
  obtain ⟨old, known⟩ := current id member
  refine ⟨Nat.lt_of_lt_of_le old
    (nextId_performed actor (did performed)), ?_⟩
  intro quiet row found
  obtain ⟨⟨held, heldFound⟩, same⟩ :=
    signedAtOf_performed actor (did performed) old found
  rw [performed.past, undisturbed_append] at quiet
  by_cases own : actor = thread
  · obtain ⟨noReading, noWrite⟩ := plain own
    simp only [own, if_true, Bool.or_eq_true] at quiet
    rw [← own, noReading] at quiet
    rw [same, noWrite id]
    exact known (own ▸ quiet.resolve_right (by simp)) held heldFound
  · simp only [own, if_false, Bool.and_eq_true,
      Option.isNone_iff_eq_none] at quiet
    rw [same, quiet.2]
    exact known quiet.1 held heldFound

theorem current_stable (ids : List Nat) (stored : Nat → Option Int) :
    (freshnessProtocol start).Stable thread
      (Current thread ids stored) := by
  rintro before after current ⟨other, different, -, -, request, answer,
    performed⟩
  exact current.later performed fun own => absurd own different

theorem safe_of_plain_call {α : Type} {next : Answer request → Program α}
    {post : α → Moment Nat World Call Answer → Prop}
    {property : Moment Nat World Call Answer → Prop}
    (plain : ∀ answer : Answer request, ∀ id,
      accepted id ⟨thread, request, answer⟩ = none)
    (stable : (freshnessProtocol start).Stable thread property)
    (holds : property moment)
    (rest : ∀ before answer after, property before →
      Performed (freshnessProtocol start) thread before request answer
          after →
        Safe (freshnessProtocol start) thread post (next answer) after) :
    Safe (freshnessProtocol start) thread post (.call request next)
      moment := by
  apply Safe.call stable holds
  intro before answer after held performed
  refine ⟨?_, trivial, rest before answer after held performed⟩
  apply performed.holds.step (did performed) performed.past
  intro id signedAt wrote
  rw [plain answer id] at wrote
  cases wrote

theorem storedSignedAt_peerGossipRecords (member : id ∈ ids)
    (found : world.peers.row? id = some row) :
    storedSignedAt (.ok (world.peerGossipRecords ids)) id =
      signedAtOf world id := by
  obtain ⟨rowMember, rfl⟩ := PeerTable.row?_eq_some_iff.mp found
  have pairOf : ∀ signedAt,
      (row.id, signedAt) ∈ (world.peerGossipRecords ids).filterMap
          (fun entry => entry.2.signedAt.map fun signedAt =>
            (entry.1, signedAt)) ↔
        signedAtOf world row.id = some signedAt := by
    intro signedAt
    simp only [World.peerGossipRecords, signedAtOf, found, Option.bind_some,
      List.mem_filterMap, Option.map_eq_some_iff, Prod.mk.injEq]
    constructor
    · rintro ⟨⟨key, raw⟩, ⟨other, otherMember, chosen⟩, read, dated, rfl, rfl⟩
      split at chosen
      · obtain ⟨raw', stored, same⟩ := Option.map_eq_some_iff.mp chosen
        have sameId : other.id = row.id := congrArg Prod.fst same
        have sameRaw : raw' = raw := congrArg Prod.snd same
        have sameRow : other = row :=
          List.inj_on_of_nodup_map world.peers.ids otherMember rowMember
            sameId
        subst sameRaw sameRow
        simp [stored, dated]
      · cases chosen
    · intro dated
      obtain ⟨raw, stored, dated⟩ := Option.bind_eq_some_iff.mp dated
      exact ⟨(row.id, raw), ⟨row, rowMember, by simp [member, stored]⟩,
        signedAt, dated, rfl, rfl⟩
  simp only [storedSignedAt]
  cases read : signedAtOf world row.id with
  | none =>
    rw [Rust.collected_eq_none_iff]
    rintro ⟨key, signedAt⟩ pairMember rfl
    rw [pairOf, read] at pairMember
    cases pairMember
  | some signedAt =>
    have present := (pairOf signedAt).mpr read
    cases collectedAs : Rust.collected _ row.id with
    | none =>
      exact absurd rfl
        (Rust.collected_eq_none_iff.mp collectedAs _ present)
    | some other =>
      have otherPresent := Rust.mem_of_collected_eq_some collectedAs
      rw [pairOf, read] at otherPresent
      exact otherPresent.symm

theorem safe_subjectOf_listed {snapshot : Snapshot}
    (current : Current thread (snapshot.peers.map (·.id)) stored moment) :
    Safe (freshnessProtocol start) thread
      (fun subject after =>
        Current thread (snapshot.peers.map (·.id)) stored after ∧
          ∀ id, subject = some id → id ∈ snapshot.peers.map (·.id))
      (snapshot.subjectOf record) moment := by
  unfold Snapshot.subjectOf
  cases found : byPubkey snapshot.peers record.pubkey with
  | some subject =>
    refine ⟨current, ?_⟩
    intro id chosen
    split at chosen
    · cases chosen
    · cases chosen
      exact List.mem_map.mpr ⟨subject, (byPubkey_eq_some found).1, rfl⟩
  | none =>
    by_cases unbound : snapshot.presenterUnbound
    · obtain ⟨presenter, listed, -⟩ := (Option.any_eq_true ..).mp unbound
      have member : snapshot.presenterId ∈ snapshot.peers.map (·.id) :=
        List.mem_map.mpr ⟨presenter, List.mem_of_find?_eq_some listed, by
          simpa using List.find?_some listed⟩
      have plain : ∀ (answer : Except StoreError Bool) id,
          accepted id ⟨thread, .bindPeerPubkey snapshot.presenterId
            record.pubkey, answer⟩ = none := by
        rintro (_ | _ | _) id <;> rfl
      simp only [unbound, if_true]
      apply safe_of_plain_call plain (current_stable _ stored) current
      intro before answer after current performed
      have current := current.later performed fun _ =>
        ⟨rfl, plain answer⟩
      match answer with
      | .ok true =>
        refine ⟨current, ?_⟩
        rintro id ⟨⟩
        exact member
      | .ok false => exact ⟨current, by simp⟩
      | .error _ => exact ⟨current, by simp⟩
    · simp only [unbound]
      exact ⟨current, by simp⟩

theorem safe_recordEndpoints_current {via : ObservedVia}
    (current : Current thread ids stored moment) :
    Safe (freshnessProtocol start) thread
      (fun _ after => Current thread ids stored after)
      (recordEndpoints id record via) moment := by
  refine Safe.fold (fun _ _ moment => Current thread ids stored moment) ?_
    _ _ _ current
  intro endpoint _ _ moment current
  cases EndpointKind.parse endpoint.kind with
  | none => exact current
  | some kind =>
    apply safe_of_plain_call (fun _ _ => rfl) (current_stable _ _) current
    intro before now after current performed
    have current := current.later performed fun _ => ⟨rfl, fun _ => rfl⟩
    have plain : ∀ (answer : Except StoreError Unit) target,
        accepted target ⟨thread, .recordPeerEndpoint now id kind
          endpoint.addr (some endpoint.observedAt) via (some record),
          answer⟩ = none := by
      rintro (_ | _) target <;> rfl
    apply safe_of_plain_call plain (current_stable _ _) current
    intro before answer after current performed
    exact current.later performed fun _ => ⟨rfl, plain answer⟩

theorem safe_setPeerGossipRecord {state : IngestState} {subject : Nat}
    {summary : IngestSummary} (member : subject ∈ ids)
    (fresh : state.isStale subject record = false)
    (current : Current thread ids state.storedSignedAt moment) :
    Safe (freshnessProtocol start) thread
      (fun state after => Current thread ids state.storedSignedAt after)
      (.call (.setPeerGossipRecord subject record) fun
        | .error _ => .done { state with summary }
        | .ok _ => .done
            { summary
              storedSignedAt := Rust.insert state.storedSignedAt subject
                record.signedAt } : Program IngestState) moment := by
  apply Safe.call (current_stable _ _) current
  intro before answer after current performed
  cases answer with
  | error => cases performed.meets
  | ok =>
    have quiet : undisturbed thread subject before.past = true :=
      performed.meets
    have rises : Rises before.world
        ⟨thread, .setPeerGossipRecord subject record, .ok ()⟩ := by
      intro id signedAt wrote
      simp only [accepted, written] at wrote
      split at wrote
      · rename_i same
        subst same
        cases wrote
        refine ⟨(current subject member).1, ?_⟩
        intro row stored found read
        have known := (current subject member).2 quiet row found
        rw [IngestState.isStale, known, read] at fresh
        simp only [Option.any_some, decide_eq_false_iff_not,
          not_le] at fresh
        exact le_of_lt fresh
      · cases wrote
    refine ⟨performed.holds.step (did performed) performed.past rises,
      trivial, ?_⟩
    intro id idMember
    obtain ⟨old, known⟩ := current id idMember
    refine ⟨Nat.lt_of_lt_of_le old
      (nextId_performed thread (did performed)), ?_⟩
    intro still row found
    obtain ⟨⟨held, heldFound⟩, same⟩ :=
      signedAtOf_performed thread (did performed) old found
    rw [same]
    by_cases own : id = subject
    · subst own
      simp [accepted, written]
    · rw [performed.past, undisturbed_append] at still
      simp only [if_true, isReading, Bool.or_false] at still
      simp only [accepted, written, Ne.symm own, if_false,
        Option.elim_none]
      rw [Rust.insert_other _ own]
      exact known still held heldFound

theorem safe_ingestRecord_current {crates : Crates} (snapshot : Snapshot)
    {state : IngestState}
    (current : Current thread (snapshot.peers.map (·.id))
      state.storedSignedAt moment) :
    Safe (freshnessProtocol start) thread
      (fun state after => Current thread (snapshot.peers.map (·.id))
        state.storedSignedAt after)
      (ingestRecord crates snapshot state record) moment := by
  unfold ingestRecord
  split
  · apply Safe.bind (safe_subjectOf_listed current)
    rintro (_ | subject) moment ⟨current, listed⟩
    · exact current
    · simp only [settleRecord]
      split
      · exact current
      · rename_i fresh
        apply Safe.bind (safe_recordEndpoints_current current)
        intro _ moment current
        exact safe_setPeerGossipRecord (listed subject rfl)
          (Bool.not_eq_true _ ▸ fresh) current
  · exact current

theorem safe_ingest_current (crates : Crates) (presenterId : Nat)
    (records : List EndpointRecord)
    (moment : Moment Nat World Call Answer) :
    Safe (freshnessProtocol start) thread (fun _ _ => True)
      (ingest crates presenterId records) moment := by
  have listing : ∀ (answer : Except StoreError (List Peer)) id,
      accepted id ⟨thread, .listPeers, answer⟩ = none := by
    rintro (_ | _) id <;> rfl
  apply safe_of_plain_call listing always_stable trivial
  intro before answer after _ listed
  cases answer with
  | error => trivial
  | ok peers =>
    -- the reading of the stored values is still to come
    have known : ∀ id ∈ peers.map (·.id),
        id < after.world.peers.nextId := by
      obtain ⟨rfl, same⟩ := of_guarded listed.performed
      intro id member
      obtain ⟨peer, peerMember, rfl⟩ := List.mem_map.mp member
      obtain ⟨row, found, -⟩ := PeerTable.row?_of_mem_listPeers peerMember
      rw [← same]
      exact PeerTable.row?_lt_nextId found
    have stable : (freshnessProtocol start).Stable thread fun moment =>
        ∀ id ∈ peers.map (·.id), id < moment.world.peers.nextId :=
      .of_performed fun other _ _ _ _ performed known id member =>
        Nat.lt_of_lt_of_le (known id member)
          (nextId_performed other (did performed))
    apply safe_of_plain_call (fun _ _ => rfl) stable known
    intro before now after known performed
    have known : ∀ id ∈ peers.map (·.id),
        id < after.world.peers.nextId := fun id member =>
      Nat.lt_of_lt_of_le (known id member)
        (nextId_performed thread (did performed))
    have reading : ∀ (answer : Except StoreError
        (List (Nat × StoredRecord))) id,
        accepted id ⟨thread, .peerGossipRecords (peers.map (·.id)),
          answer⟩ = none := by
      rintro (_ | _) id <;> rfl
    apply safe_of_plain_call reading stable known
    intro before answer after known performed
    have current : Current thread (peers.map (·.id))
        (storedSignedAt answer) after := by
      cases answer with
      | error => cases performed.meets
      | ok raws =>
        obtain ⟨rfl, same⟩ := of_guarded performed.performed
        intro id member
        rw [← same]
        exact ⟨known id member, fun _ row found =>
          storedSignedAt_peerGossipRecords member found⟩
    refine Safe.bind (Safe.fold
      (fun _ state moment => Current thread (peers.map (·.id))
        state.storedSignedAt moment)
      (fun _ _ _ _ current =>
        safe_ingestRecord_current ⟨presenterId, peers, now⟩ current)
      _ _ _ current) ?_
    intro _ _ _
    trivial

theorem newest_of_other_call
    (other : ∀ id signed, request ≠ .setPeerGossipRecord id signed)
    (performed : Performed (freshnessProtocol start) thread before request
      answer after) : Newest start after := by
  apply performed.holds.step (did performed) performed.past
  intro id signedAt wrote
  exfalso
  simp only [accepted] at wrote
  split at wrote
  · rename_i target signed writes
    exact other target signed (request_of_record writes)
  · cases wrote

theorem keeps_ownCalls_newest :
    KeepsOwnCalls (freshnessProtocol start) thread := by
  intro before request answer after own performed
  refine ⟨newest_of_other_call ?_ performed, trivial⟩
  rintro id signed rfl
  exact own

theorem safe_lookupQuiet_current (crates : Crates) (urls : List String)
    (index : Nat) (moment : Moment Nat World Call Answer) :
    Safe (freshnessProtocol start) thread (fun _ _ => True)
      (lookupQuiet crates urls index) moment := by
  apply Safe.of_only always_stable _ (lookupQuiet_only urls index) trivial
  intro before request answer after lookup _ performed
  refine ⟨newest_of_other_call ?_ performed, trivial, trivial⟩
  rintro id signed rfl
  exact lookup

theorem newest_of_run {crates : Crates} {jobs : Nat → Job}
    {trace : List (Event Nat Call Answer)}
    {reached : Pool Nat World Call Answer Outcome}
    (run : Run perform OnFreshReading (pool crates start jobs) trace
      reached) : Newest start ⟨reached.world, trace⟩ := by
  have begins : Newest start ⟨start, []⟩ :=
    ⟨Nat.le_refl _, fun _ some => absurd rfl some, fun _ _ _ => rfl⟩
  have sound : Sound (freshnessProtocol start) (fun _ _ _ => True) trace
      reached :=
    Run.sound (fun _ _ => always_stable) run ⟨begins, fun thread =>
      keeps_ownCalls_newest.safe_program (safe_ingest_current crates)
        (safe_lookupQuiet_current crates) (jobs thread) _⟩
  exact sound.holds

/-- In every interleaving whose ingests write on a fresh reading, the stored
`signed_at` of every peer is the greatest accepted for it, and so it never
decreases. -/
theorem signedAt_newest_and_never_decreases {crates : Crates}
    {world : World} {jobs : Nat → Job}
    {trace : List (Event Nat Call Answer)}
    {reached : Pool Nat World Call Answer Outcome}
    (run : Run perform OnFreshReading (pool crates world jobs) trace
      reached) :
    (∀ id row, reached.world.peers.row? id = some row →
      signedAtOf reached.world id =
        newest (signedAtOf world id) (acceptedFor id trace)) ∧
    (∀ later final id row signedAt,
      Run perform OnFreshReading (pool crates world jobs) (trace ++ later)
          final →
        final.world.peers.row? id = some row →
          signedAtOf reached.world id = some signedAt →
            ∃ newer, signedAtOf final.world id = some newer ∧
              signedAt ≤ newer) := by
  have now := newest_of_run run
  refine ⟨now.newest, ?_⟩
  intro later final id row signedAt whole found stored
  have held : ∃ before, reached.world.peers.row? id = some before := by
    cases found : reached.world.peers.row? id with
    | none => simp [signedAtOf, found] at stored
    | some before => exact ⟨before, rfl⟩
  obtain ⟨before, held⟩ := held
  have accepted : newest (signedAtOf world id) (acceptedFor id trace) =
      some signedAt := (now.newest id before held).symm.trans stored
  have atEnd := (newest_of_run whole).newest id row found
  obtain ⟨newer, same, le⟩ := le_newest accepted (acceptedFor id later)
  refine ⟨newer, ?_, le⟩
  calc signedAtOf final.world id
      = newest (signedAtOf world id) (acceptedFor id (trace ++ later)) :=
        atEnd
    _ = newest (newest (signedAtOf world id) (acceptedFor id trace))
          (acceptedFor id later) := by
        simp [newest, acceptedFor, List.filterMap_append, List.foldl_append]
    _ = some newer := same

/-- Sam is added; two pushes of his, the older record and the newer one, are
on their way. -/
def pushJobs : Nat → Job
  | 0 => .createPeer "Sam" "sam-hash"
  | 1 => .ingest 1 [signedRecord "sam-key" "http://sam:1" 90]
  | _ => .ingest 1 [signedRecord "sam-key" "http://sam:2" 95]

def pushPool : Pool Nat World Call Answer Outcome :=
  pool plainCrates .empty pushJobs

def created : List (Event Nat Call Answer) :=
  [⟨0, .nowEpoch, (100 : Int)⟩,
    ⟨0, .createPeer "Sam" "sam-hash" 100,
      .ok (freshPeer 1 "Sam" "sam-hash")⟩]

/-- A push up to its reading of the stored values. -/
def reads (thread : Nat) : List (Event Nat Call Answer) :=
  [⟨thread, .listPeers, .ok [freshPeer 1 "Sam" "sam-hash"]⟩,
    ⟨thread, .nowEpoch, (101 : Int)⟩,
    ⟨thread, .peerGossipRecords [1], .ok []⟩]

/-- The rest of a push, ending in its write. -/
def writes (thread : Nat) (addr : String) (signedAt : Int) :
    List (Event Nat Call Answer) :=
  [⟨thread, .bindPeerPubkey 1 "sam-key", .ok true⟩,
    ⟨thread, .nowEpoch, (101 : Int)⟩,
    ⟨thread, .recordPeerEndpoint 101 1 .tracker addr (some signedAt) .direct
      (some (signedRecord "sam-key" addr signedAt)), .ok ()⟩,
    ⟨thread, .setPeerGossipRecord 1 (signedRecord "sam-key" addr signedAt),
      .ok ()⟩]

def onePush : List (Event Nat Call Answer) :=
  created ++ reads 1 ++ writes 1 "http://sam:1" 90

def boundSam : Peer :=
  { freshPeer 1 "Sam" "sam-hash" with pubkey := some "sam-key" }

/-- The other push, which reads what the first has stored. -/
def nextPush : List (Event Nat Call Answer) :=
  [⟨2, .listPeers, .ok [boundSam]⟩, ⟨2, .nowEpoch, (101 : Int)⟩,
    ⟨2, .peerGossipRecords [1],
      .ok [(1, .signed (signedRecord "sam-key" "http://sam:1" 90))]⟩] ++
    (writes 2 "http://sam:2" 95).tail

/-- Two pushes one after the other: the first leaves its own record as the
newest, and the second leaves none older. -/
theorem twoPushes_newest :
    ∃ reached final, Run perform OnFreshReading pushPool onePush reached ∧
      Run perform OnFreshReading pushPool (onePush ++ nextPush) final ∧
        signedAtOf reached.world 1 =
          newest (signedAtOf .empty 1) (acceptedFor 1 onePush) ∧
        ∃ newer, signedAtOf final.world 1 = some newer ∧ 90 ≤ newer := by
  have first : (replay perform onFreshReading [] pushPool onePush).map
      (fun reached => ((reached.world.peers.row? 1).isSome,
        signedAtOf reached.world 1)) = some (true, some 90) := by
    decide +kernel
  have second : (replay perform onFreshReading [] pushPool
      (onePush ++ nextPush)).map
        (fun final => (final.world.peers.row? 1).isSome) = some true := by
    decide +kernel
  have checks : ∀ moment event, onFreshReading moment event = true →
      OnFreshReading moment event := fun _ _ checked => checked
  obtain ⟨reached, run, seen⟩ := Run.exists_of_replay checks first
  obtain ⟨present, stored⟩ := Prod.mk.inj seen
  obtain ⟨row, found⟩ := Option.isSome_iff_exists.mp present
  obtain ⟨final, whole, present⟩ := Run.exists_of_replay checks second
  obtain ⟨later, held⟩ := Option.isSome_iff_exists.mp present
  have both := signedAt_newest_and_never_decreases run
  exact ⟨reached, final, run, whole, both.1 1 row found,
    both.2 nextPush final 1 later 90 whole held stored⟩

/-- Both pushes read before either writes, and the newer one writes first. -/
def newerFirst : List (Event Nat Call Answer) :=
  created ++ reads 1 ++ reads 2 ++ writes 2 "http://sam:2" 95

def rewinding : List (Event Nat Call Answer) :=
  newerFirst ++ writes 1 "http://sam:1" 90

/-- The older record rewinds the newer one. -/
theorem signedAt_rewound :
    ∃ reached final, Run perform .always pushPool newerFirst reached ∧
      Run perform .always pushPool rewinding final ∧
        signedAtOf reached.world 1 = some 95 ∧
          signedAtOf final.world 1 = some 90 := by
  have first : (replay perform (fun _ _ => true) [] pushPool newerFirst).map
      (fun reached => signedAtOf reached.world 1) = some (some 95) := by
    decide +kernel
  have second : (replay perform (fun _ _ => true) [] pushPool rewinding).map
      (fun final => signedAtOf final.world 1) = some (some 90) := by
    decide +kernel
  obtain ⟨reached, reaching, stored⟩ :=
    Run.exists_of_replay (fun _ _ _ => trivial) first
  obtain ⟨final, finishing, rewound⟩ :=
    Run.exists_of_replay (fun _ _ _ => trivial) second
  exact ⟨reached, final, reaching, finishing, stored, rewound⟩

end Gossip

end Sharerr
