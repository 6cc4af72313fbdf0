import Sharerr.Gossip.Rules
import Sharerr.Process.Solo

/-!
# Handlers run alone

One handler with the store to itself.  What it cannot choose is the
environment: the readings of the clock, the calls that fail and what a
lighthouse answers.
-/

namespace Sharerr

namespace Gossip

open Process

/-- What answers the calls beside the tables.  `fault` names the calls that
fail, with the detail of their error. -/
structure Environment where
  clock : Nat → Int
  fault : Nat → Call → Option String
  lighthouse : Nat → String → String → Except String EndpointRecord

/-- Nothing fails and no lighthouse answers. -/
def Environment.quiet (clock : Nat → Int) : Environment where
  clock := clock
  fault := fun _ _ => none
  lighthouse := fun _ _ _ => .error "connection refused"

/-- The failure of a call; reading the clock has none. -/
def failure (detail : String) : (request : Call) → Option (Answer request)
  | .nowEpoch => none
  | .listPeers => some (.error (.sql detail))
  | .activePeers => some (.error (.sql detail))
  | .peer _ => some (.error (.sql detail))
  | .peerGossipRecords _ => some (.error (.sql detail))
  | .bindPeerPubkey _ _ => some (.error (.sql detail))
  | .recordPeerEndpoint .. => some (.error (.sql detail))
  | .setPeerGossipRecord _ _ => some (.error (.sql detail))
  | .setPeerGossipUrl _ _ => some (.error (.sql detail))
  | .createPeer _ _ _ => some (.error (.sql detail))
  | .revokePeer _ _ => some (.error (.sql detail))
  | .deletePeer _ => some (.error (.sql detail))
  | .openVault => some (.error (.corrupt detail))
  | .vaultPut _ _ => some (.error (.corrupt detail))
  | .lighthouseLookup _ _ => some (.error detail)

/-- The answer the tables give. -/
def answered (environment : Environment) (calls : Nat) (world : World) :
    (request : Call) → Answer request × World
  | .listPeers => (.ok world.peers.listPeers, world)
  | .activePeers => (.ok world.peers.activePeers, world)
  | .peer id => (.ok ((world.peers.row? id).map (·.toPeer)), world)
  | .nowEpoch => (environment.clock calls, world)
  | .peerGossipRecords ids => (.ok (world.peerGossipRecords ids), world)
  | .bindPeerPubkey id pubkey =>
    if world.bindable id pubkey then
      (.ok true, world.bindPeerPubkey id pubkey)
    else (.ok false, world)
  | .recordPeerEndpoint now id kind addr observedAt via _ =>
    if (world.peers.row? id).isSome then
      (.ok (), world.recordPeerEndpoint now id kind addr observedAt via)
    else (.error (.sql "FOREIGN KEY constraint failed"), world)
  | .setPeerGossipRecord id record =>
    (.ok (), world.setPeerGossipRecord id record)
  | .setPeerGossipUrl id url =>
    (.ok (world.peers.row? id).isSome, world.setPeerGossipUrl id url)
  | .createPeer label keyHash now =>
    match world.peers.insert label keyHash now with
    | some (peer, peers) => (.ok peer, { world with peers })
    | none => (.error (.sql "UNIQUE constraint failed"), world)
  | .revokePeer id now =>
    if (world.peers.row? id).any (·.revokedAt.isNone) then
      (.ok true, world.revokePeer id now)
    else (.ok false, world)
  | .deletePeer id =>
    (.ok (world.peers.row? id).isSome, world.deletePeer id)
  | .openVault => (.ok world.secrets, world)
  | .vaultPut key value =>
    (.ok (), { world with secrets := world.secrets.put key value })
  | .lighthouseLookup url keyHash =>
    (environment.lighthouse calls url keyHash, world)

def Environment.respond (environment : Environment) :
    Responder World Call Answer :=
  fun calls world request =>
    match (environment.fault calls request).bind (failure · request) with
    | some answer => (answer, world)
    | none => answered environment calls world request

section Responder

variable {Thread : Type} {thread : Thread} {environment : Environment}
  {calls : Nat} {world : World} {request : Call}

theorem perform_failure {detail : String} {answer : Answer request}
    (fails : failure detail request = some answer) :
    perform thread world request answer = some world := by
  cases request <;> cases fails <;> rfl

theorem perform_answered :
    perform thread world request
        (answered environment calls world request).1 =
      some (answered environment calls world request).2 := by
  cases request with
  | listPeers | activePeers | peer | peerGossipRecords | openVault
  | setPeerGossipUrl | deletePeer => simp [perform, answered]
  | nowEpoch | setPeerGossipRecord | vaultPut | lighthouseLookup => rfl
  | bindPeerPubkey id pubkey =>
    simp only [answered]
    split
    · rename_i bindable
      simp [perform, bindable]
    · rename_i taken
      simp [perform, taken]
  | recordPeerEndpoint now id =>
    simp only [answered]
    split
    · rename_i present
      simp [perform, present]
    · rfl
  | createPeer label keyHash now =>
    simp only [answered]
    split
    · rename_i inserted
      simp [perform, inserted]
    · rfl
  | revokePeer id now =>
    simp only [answered]
    split
    · rename_i active
      simp only [perform, active, if_true]
    · rename_i ended
      rw [Bool.not_eq_true] at ended
      simp [perform, ended]

/-- An environment only gives answers the tables admit. -/
theorem perform_respond :
    perform thread world request
        (environment.respond calls world request).1 =
      some (environment.respond calls world request).2 := by
  simp only [Environment.respond]
  cases failed : (environment.fault calls request).bind
      (failure · request) with
  | none => exact perform_answered
  | some answer =>
    obtain ⟨detail, -, fails⟩ := Option.bind_eq_some_iff.mp failed
    exact perform_failure fails

theorem respond_of_no_fault
    (unfailing : environment.fault calls request = none) :
    environment.respond calls world request =
      answered environment calls world request := by
  simp [Environment.respond, unfailing]

theorem respond_bindPeerPubkey (environment : Environment) (calls : Nat)
    (world : World) (id : Nat) (pubkey : String) :
    (world.bindable id pubkey = true ∧
        environment.respond calls world (.bindPeerPubkey id pubkey) =
          (.ok true, world.bindPeerPubkey id pubkey)) ∨
      ∃ answer, answer ≠ .ok true ∧
        environment.respond calls world (.bindPeerPubkey id pubkey) =
          (answer, world) := by
  cases fault : environment.fault calls (.bindPeerPubkey id pubkey) with
  | some detail =>
    refine .inr ⟨.error (.sql detail), nofun, ?_⟩
    simp [Environment.respond, fault, failure]
  | none =>
    rw [respond_of_no_fault fault]
    cases bindable : world.bindable id pubkey with
    | true => exact .inl ⟨rfl, by simp [answered, bindable]⟩
    | false => exact .inr ⟨.ok false, nofun, by simp [answered, bindable]⟩

/-- What a call of an ingest makes of the row of a peer. -/
theorem row?_respond (environment : Environment) (calls : Nat)
    (world : World) (ingests : IngestCall request) (id : Nat) :
    (environment.respond calls world request).2.peers.row? id =
        world.peers.row? id ∨
      (∃ pubkey, request = .bindPeerPubkey id pubkey ∧
        environment.fault calls request = none ∧
          world.bindable id pubkey = true ∧
            (environment.respond calls world request).2.peers.row? id =
              (world.peers.row? id).map ({ · with pubkey := some pubkey })) ∨
        ∃ record, request = .setPeerGossipRecord id record ∧
          (environment.respond calls world request).2.peers.row? id =
            (world.peers.row? id).map
              ({ · with gossipRecord := some (.signed record) }) := by
  cases failed : (environment.fault calls request).bind
      (failure · request) with
  | some answer =>
    left
    simp [Environment.respond, failed]
  | none =>
    have responded : environment.respond calls world request =
        answered environment calls world request := by
      simp [Environment.respond, failed]
    rw [responded]
    cases request with
    | listPeers | nowEpoch | peerGossipRecords => exact .inl rfl
    | bindPeerPubkey target pubkey =>
      simp only [answered]
      split
      · rename_i bindable
        by_cases same : target = id
        · subst same
          refine .inr (.inl ⟨pubkey, rfl, ?_, bindable, ?_⟩)
          · rw [Option.eq_none_iff_forall_ne_some]
            intro detail fault
            simp [failure, fault] at failed
          · simp [World.bindPeerPubkey, PeerTable.row?_update]
        · left
          simp [World.bindPeerPubkey, PeerTable.row?_update,
            Ne.symm same]
      · exact .inl rfl
    | recordPeerEndpoint now target =>
      left
      simp only [answered]
      split <;> rfl
    | setPeerGossipRecord target record =>
      by_cases same : target = id
      · subst same
        refine .inr (.inr ⟨record, rfl, ?_⟩)
        simp [answered, World.setPeerGossipRecord,
          PeerTable.row?_update]
      · left
        simp [answered, World.setPeerGossipRecord,
          PeerTable.row?_update, Ne.symm same]
    | activePeers | peer | setPeerGossipUrl | createPeer | revokePeer
    | deletePeer | openVault | vaultPut | lighthouseLookup =>
      exact ingests.elim

theorem secrets_respond (ingests : IngestCall request) :
    (environment.respond calls world request).2.secrets = world.secrets := by
  simp only [Environment.respond]
  split
  · rfl
  · cases request with
    | listPeers | nowEpoch | peerGossipRecords | setPeerGossipRecord => rfl
    | bindPeerPubkey | recordPeerEndpoint =>
      simp only [answered]
      split <;> rfl
    | _ => exact ingests.elim

theorem isSome_row?_respond (environment : Environment) (calls : Nat)
    (world : World) (ingests : IngestCall request) (id : Nat) :
    ((environment.respond calls world request).2.peers.row? id).isSome =
      (world.peers.row? id).isSome := by
  rcases row?_respond environment calls world ingests id with
    same | ⟨_, -, -, -, wrote⟩ | ⟨_, -, wrote⟩
  · rw [same]
  · rw [wrote, Option.isSome_map]
  · rw [wrote, Option.isSome_map]

end Responder

section Ingest

variable (environment : Environment) (world : World)

/-- What the ingest decides every record on. -/
def Environment.snapshot (presenterId : Nat) : Snapshot :=
  ⟨presenterId, world.peers.listPeers, environment.clock 1⟩

/-- The `signed_at` values the ingest starts from. -/
def Environment.readSignedAt : Nat → Option Int :=
  storedSignedAt (environment.respond 2 world
    (.peerGossipRecords (world.peers.listPeers.map (·.id)))).1

/-- The loop over `records`, after the three readings before it. -/
def Environment.ingestLoop (crates : Crates) (presenterId : Nat)
    (records : List EndpointRecord) : Finish World IngestState :=
  (Prog.fold (ingestRecord crates (environment.snapshot world presenterId))
    ⟨.default, environment.readSignedAt world⟩ records).alone
      environment.respond 3 world

variable {environment world} {crates : Crates}

theorem ingest_alone (listed : environment.fault 0 .listPeers = none)
    (presenterId : Nat) (records : List EndpointRecord) :
    (ingest crates presenterId records).alone environment.respond 0 world =
      let finish := environment.ingestLoop world crates presenterId
        (records.take maxRecords)
      ⟨finish.value.summary, finish.world, finish.calls⟩ := by
  have peers : environment.respond 0 world .listPeers =
      (.ok world.peers.listPeers, world) := respond_of_no_fault listed
  have clock : environment.respond 1 world .nowEpoch =
      (environment.clock 1, world) := by
    cases fault : environment.fault 1 .nowEpoch with
    | none => exact respond_of_no_fault fault
    | some detail => simp [Environment.respond, fault, failure, answered]
  have records : ∀ ids, (environment.respond 2 world
      (.peerGossipRecords ids)).2 = world := by
    intro ids
    cases fault : environment.fault 2 (.peerGossipRecords ids) with
    | none => rw [respond_of_no_fault fault]; rfl
    | some detail => simp [Environment.respond, fault, failure]
  simp only [ingest, Prog.alone_call, peers, clock, Prog.alone_bind,
    Prog.alone_done, records]
  rfl

end Ingest

end Gossip

end Sharerr
