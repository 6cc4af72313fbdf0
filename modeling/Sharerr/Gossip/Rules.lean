import Sharerr.Gossip.Handlers
import Sharerr.Process.Safety

/-!
# From the ingest and the lookups to every handler

Most handlers make a few calls of their own and leave the rest to `ingest` or
to a lighthouse lookup.  Whatever a protocol asks of the calls of a thread, it
is enough to show it for these own calls and for the two loops.
-/

namespace Sharerr

namespace Gossip

open Process

/-- The calls the handlers make outside `ingest` and the lookups. -/
def OwnCall : Call → Prop
  | .peer _ | .openVault | .vaultPut _ _ | .setPeerGossipUrl _ _ => True
  | .bindPeerPubkey _ _ | .nowEpoch => True
  | .createPeer _ _ _ | .revokePeer _ _ | .deletePeer _ => True
  | .recordPeerEndpoint _ _ _ _ _ via origin =>
    origin = none ∧ (via = .direct ∨ via = .restored)
  | _ => False

def IngestCall : Call → Prop
  | .listPeers | .nowEpoch | .peerGossipRecords _ => True
  | .bindPeerPubkey _ _ | .setPeerGossipRecord _ _ => True
  | .recordPeerEndpoint _ _ _ _ _ _ _ => True
  | _ => False

def LookupCall : Call → Prop
  | .openVault | .activePeers | .lighthouseLookup _ _ | .nowEpoch => True
  | .recordPeerEndpoint _ _ _ _ _ _ _ => True
  | _ => False

variable {crates : Crates}

variable {allowed : Call → Prop}

theorem recordEndpoints_only (clock : allowed .nowEpoch)
    (writes : ∀ now id kind addr observedAt via origin, allowed
      (.recordPeerEndpoint now id kind addr observedAt via origin))
    (peerId : Nat) (record : EndpointRecord) (via : ObservedVia) :
    (recordEndpoints peerId record via).Only allowed := by
  apply Prog.Only.fold
  intro _ endpoint _
  cases EndpointKind.parse endpoint.kind with
  | none => trivial
  | some kind =>
    exact ⟨clock, fun now => ⟨writes .., fun _ => trivial⟩⟩

/-- The rows a record can be recorded for: the one its key is looked up to,
and the presenter's. -/
def Snapshot.MayConcern (snapshot : Snapshot) (record : EndpointRecord)
    (subject : Nat) : Prop :=
  subject = snapshot.presenterId ∨
    ∃ peer, byPubkey snapshot.peers record.pubkey = some peer ∧
      peer.id = subject

theorem acceptRecord_only {snapshot : Snapshot} {record : EndpointRecord}
    {subject : Nat} (clock : allowed .nowEpoch)
    (writes : ∀ now id kind addr observedAt via origin, allowed
      (.recordPeerEndpoint now id kind addr observedAt via origin))
    (stores : allowed (.setPeerGossipRecord subject record))
    (state : IngestState) :
    (acceptRecord snapshot state record subject).Only allowed := by
  apply (recordEndpoints_only clock writes ..).bind
  intro _
  refine ⟨stores, ?_⟩
  intro answer
  cases answer <;> trivial

/-- The calls of one turn of the loop. -/
theorem ingestRecord_only {snapshot : Snapshot} {record : EndpointRecord}
    (clock : allowed .nowEpoch)
    (writes : ∀ now id kind addr observedAt via origin, allowed
      (.recordPeerEndpoint now id kind addr observedAt via origin))
    (stores : ∀ subject, snapshot.MayConcern record subject →
      allowed (.setPeerGossipRecord subject record))
    (binds : crates.admissible snapshot.now record = true →
      byPubkey snapshot.peers record.pubkey = none →
        allowed (.bindPeerPubkey snapshot.presenterId record.pubkey))
    (state : IngestState) :
    (ingestRecord crates snapshot state record).Only allowed := by
  have kept : ∀ subject, snapshot.MayConcern record subject →
      (settleRecord snapshot state record subject).Only allowed := by
    intro subject concerns
    unfold settleRecord
    split
    · trivial
    · exact acceptRecord_only clock writes (stores subject concerns) state
  unfold ingestRecord Snapshot.subjectOf
  split
  · rename_i admissible
    split
    · rename_i peer found
      cases peer.isRevoked with
      | true => trivial
      | false => exact kept peer.id (.inr ⟨peer, found, rfl⟩)
    · rename_i unlisted
      split
      · refine ⟨binds admissible unlisted, ?_⟩
        rintro (_ | _ | _)
        · trivial
        · trivial
        · exact kept _ (.inl rfl)
      · trivial
  · trivial

theorem ingest_only (presenterId : Nat) (records : List EndpointRecord) :
    (ingest crates presenterId records).Only IngestCall := by
  refine ⟨trivial, ?_⟩
  intro answer
  cases answer with
  | error => trivial
  | ok peers =>
    refine ⟨trivial, fun now => ⟨trivial, fun answer => ?_⟩⟩
    refine (Prog.Only.fold ?_ _).bind fun _ => trivial
    intro state record _
    exact ingestRecord_only (by trivial) (by intros; trivial)
      (by intros; trivial) (by intros; trivial) state

theorem lookupUrls_only (peerId : Nat) (pubkey keyHash : String)
    (urls : List String) :
    (lookupUrls crates peerId pubkey keyHash urls).Only LookupCall := by
  induction urls with
  | nil => trivial
  | cons url urls ih =>
    refine ⟨trivial, ?_⟩
    intro answer
    cases answer with
    | error => exact ih
    | ok record =>
      simp only
      split
      · exact ih
      · exact recordEndpoints_only (by trivial) (by intros; trivial) ..

theorem lookupQuiet_only (urls : List String) (index : Nat) :
    (lookupQuiet crates urls index).Only LookupCall := by
  refine ⟨trivial, ?_⟩
  intro answer
  cases answer with
  | error => trivial
  | ok secrets =>
    refine ⟨trivial, ?_⟩
    intro answer
    cases answer with
    | error => trivial
    | ok peers =>
      simp only
      split
      · trivial
      · unfold lookupQuietOne
        split
        · exact lookupUrls_only ..
        · trivial

theorem applyInvite_only {peer : Peer}
    (binds : ∀ pubkey, allowed (.bindPeerPubkey peer.id pubkey))
    (addresses : ∀ url, allowed (.setPeerGossipUrl peer.id url))
    (keys : ∀ value, allowed (.vaultPut (peerGossipKey peer.id) value))
    (invite : Invite) : (applyInvite crates peer invite).Only allowed := by
  have outbound : (applyOutbound crates peer invite).Only allowed := by
    unfold applyOutbound
    cases gossipUrl crates (some invite.url) with
    | error => trivial
    | ok url =>
      refine ⟨addresses url, ?_⟩
      rintro (_ | _ | _)
      · trivial
      · trivial
      · refine ⟨keys _, ?_⟩
        rintro (_ | _) <;> trivial
  unfold applyInvite
  cases invite.pubkey with
  | none => exact outbound
  | some pubkey =>
    refine ⟨binds pubkey, ?_⟩
    rintro (_ | _ | _)
    · trivial
    · trivial
    · exact outbound

theorem storeOutbound_only {peer : Peer}
    (ingests : ∀ request, IngestCall request → allowed request)
    (addresses : ∀ url, allowed (.setPeerGossipUrl peer.id url))
    (keys : ∀ value, allowed (.vaultPut (peerGossipKey peer.id) value))
    (request : PairRequest) :
    (storeOutbound crates peer request).Only allowed := by
  have finish : (finishPair crates peer request).Only allowed := by
    unfold finishPair
    cases request.record with
    | none => trivial
    | some record =>
      exact ((ingest_only peer.id [record]).mono ingests).bind
        fun _ => trivial
  refine ⟨keys _, ?_⟩
  rintro (_ | _)
  · trivial
  · cases gossipUrl crates (some request.url) with
    | error => trivial
    | ok url =>
      refine ⟨addresses url, ?_⟩
      rintro (_ | _ | _)
      · trivial
      · trivial
      · exact finish

theorem always_stable {protocol : Protocol Nat World Call Answer}
    {thread : Nat} : protocol.Stable thread fun _ => True :=
  fun _ _ _ _ => trivial

variable {protocol : Protocol Nat World Call Answer} {thread : Nat}

/-- What a protocol asks of the own calls of a thread. -/
def KeepsOwnCalls (protocol : Protocol Nat World Call Answer)
    (thread : Nat) : Prop :=
  ∀ before request answer after, OwnCall request →
    Performed protocol thread before request answer after →
      protocol.invariant after ∧ protocol.guarantee thread before after

namespace KeepsOwnCalls

variable (keeps : KeepsOwnCalls protocol thread)
include keeps

theorem safe_of_only {α : Type} {program : Program α}
    (only : program.Only OwnCall) (moment : Moment Nat World Call Answer) :
    Safe protocol thread (fun _ _ => True) program moment := by
  apply Safe.of_only always_stable _ only trivial
  intro before request answer after own _ performed
  obtain ⟨holds, kept⟩ := keeps before request answer after own performed
  exact ⟨holds, kept, trivial⟩

theorem safe_call {α : Type} {request : Call}
    {next : Answer request → Program α}
    {moment : Moment Nat World Call Answer} (own : OwnCall request)
    (rest : ∀ answer after,
      Safe protocol thread (fun _ _ => True) (next answer) after) :
    Safe protocol thread (fun _ _ => True) (.call request next) moment := by
  apply Safe.call always_stable trivial
  intro before answer after _ performed
  obtain ⟨holds, kept⟩ := keeps before request answer after own performed
  exact ⟨holds, kept, rest answer after⟩

theorem safe_storeOutbound
    (ingests : ∀ presenterId records moment, Safe protocol thread
      (fun _ _ => True) (ingest crates presenterId records) moment)
    (peer : Peer) (request : PairRequest)
    (moment : Moment Nat World Call Answer) :
    Safe protocol thread (fun _ _ => True)
      (storeOutbound crates peer request) moment := by
  have finish : ∀ moment, Safe protocol thread (fun _ _ => True)
      (finishPair crates peer request) moment := by
    intro moment
    unfold finishPair
    cases request.record with
    | none => trivial
    | some record =>
      exact (ingests peer.id [record] moment).bind fun _ _ _ => trivial
  apply keeps.safe_call (by exact trivial)
  intro answer after
  cases answer with
  | error => trivial
  | ok =>
    cases gossipUrl crates (some request.url) with
    | error => trivial
    | ok url =>
      apply keeps.safe_call (by exact trivial)
      rintro (_ | _ | _) after
      · trivial
      · trivial
      · exact finish after

theorem safe_pair
    (ingests : ∀ presenterId records moment, Safe protocol thread
      (fun _ _ => True) (ingest crates presenterId records) moment)
    (callerId : Nat) (request : PairRequest)
    (moment : Moment Nat World Call Answer) :
    Safe protocol thread (fun _ _ => True) (pair crates callerId request)
      moment := by
  apply keeps.safe_call (by exact trivial)
  rintro (_ | _ | peer) after
  · trivial
  · trivial
  · simp only
    cases refusal crates peer request with
    | some response => trivial
    | none =>
      apply keeps.safe_call (by exact trivial)
      intro answer after
      cases answer with
      | error => trivial
      | ok secrets =>
        simp only
        split
        · trivial
        · exact keeps.safe_storeOutbound ingests peer request after

/-- Every job is safe once the own calls and the two loops are. -/
theorem safe_program
    (ingests : ∀ presenterId records moment, Safe protocol thread
      (fun _ _ => True) (ingest crates presenterId records) moment)
    (lookups : ∀ urls index moment, Safe protocol thread
      (fun _ _ => True) (lookupQuiet crates urls index) moment)
    (job : Job) (moment : Moment Nat World Call Answer) :
    Safe protocol thread (fun _ _ => True) (job.program crates) moment := by
  cases job with
  | ingest presenterId records =>
    exact (ingests presenterId records moment).bind fun _ _ _ => trivial
  | pair callerId request =>
    exact (keeps.safe_pair ingests callerId request moment).bind
      fun _ _ _ => trivial
  | lookupQuiet urls index =>
    exact (lookups urls index moment).bind fun _ _ _ => trivial
  | applyInvite peer invite =>
    apply keeps.safe_of_only
    exact (applyInvite_only (by intros; trivial) (by intros; trivial)
      (by intros; trivial) invite).bind fun _ => trivial
  | recordSighting peerId kind addr =>
    apply keeps.safe_of_only
    exact ⟨trivial, fun _ => ⟨trivial, fun _ =>
      ⟨⟨rfl, .inl rfl⟩, fun _ => trivial⟩⟩⟩
  | restoreSighting peerId addr =>
    apply keeps.safe_of_only
    exact ⟨trivial, fun _ => ⟨⟨rfl, .inr rfl⟩, fun _ => trivial⟩⟩
  | createPeer label keyHash =>
    apply keeps.safe_of_only
    refine ⟨trivial, fun _ => ⟨trivial, ?_⟩⟩
    rintro (_ | _) <;> trivial
  | revokePeer id =>
    apply keeps.safe_of_only
    exact ⟨trivial, fun _ => ⟨trivial, fun _ => trivial⟩⟩
  | deletePeer id =>
    apply keeps.safe_of_only
    exact ⟨trivial, fun _ => trivial⟩

end KeepsOwnCalls

end Gossip

end Sharerr
