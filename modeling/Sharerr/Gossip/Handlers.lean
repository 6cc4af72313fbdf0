import Sharerr.Gossip.Calls

/-!
# Ingest, pairing and lighthouse lookups

The handlers that write what friends say about themselves, as programs over
the calls of the store and the vault.
-/

namespace Sharerr

namespace Gossip

open Process

structure IngestSummary where
  accepted : Nat
  invalid : Nat
  unknown : Nat
  stale : Nat
deriving DecidableEq, Repr

def IngestSummary.default : IngestSummary := ⟨0, 0, 0, 0⟩

def maxRecords : Nat := 64

/-- What `ingest` reads before its loop and decides every record on. -/
structure Snapshot where
  presenterId : Nat
  peers : List Peer
  now : Int

/-- The `by_pubkey` map: of several peers with one key, the last one listed
stays in it. -/
def byPubkey (peers : List Peer) (pubkey : String) : Option Peer :=
  Rust.collected
    (peers.filterMap fun peer => peer.pubkey.map fun key => (key, peer))
    pubkey

theorem byPubkey_eq_some {peers : List Peer} {pubkey : String} {peer : Peer}
    (found : byPubkey peers pubkey = some peer) :
    peer ∈ peers ∧ peer.pubkey = some pubkey := by
  have member := Rust.mem_of_collected_eq_some found
  obtain ⟨listed, listedMember, entry⟩ := List.mem_filterMap.mp member
  obtain ⟨key, bound, same⟩ := Option.map_eq_some_iff.mp entry
  cases same
  exact ⟨listedMember, bound⟩

theorem byPubkey_eq_none_iff {peers : List Peer} {pubkey : String} :
    byPubkey peers pubkey = none ↔
      ∀ peer ∈ peers, peer.pubkey ≠ some pubkey := by
  rw [byPubkey, Rust.collected_eq_none_iff]
  constructor
  · intro absent peer member bound
    exact absent (pubkey, peer)
      (List.mem_filterMap.mpr ⟨peer, member, by simp [bound]⟩) rfl
  · rintro absent ⟨key, peer⟩ member rfl
    obtain ⟨listed, listedMember, entry⟩ := List.mem_filterMap.mp member
    obtain ⟨bound, isBound, same⟩ := Option.map_eq_some_iff.mp entry
    cases same
    exact absent peer listedMember isBound

namespace Snapshot

variable (snapshot : Snapshot)

def presenterUnbound : Bool :=
  (snapshot.peers.find? fun peer => peer.id = snapshot.presenterId).any
    fun peer => peer.pubkey.isNone

/-- The peer a record is about, `none` where it counts as unknown.  A key no
listed peer is bound to is bound to the presenter, if they have none. -/
def subjectOf (record : EndpointRecord) : Program (Option Nat) :=
  match byPubkey snapshot.peers record.pubkey with
  | some subject =>
    .done (if subject.isRevoked then none else some subject.id)
  | none =>
    if snapshot.presenterUnbound then
      .call (.bindPeerPubkey snapshot.presenterId record.pubkey) fun
        | .ok true => .done (some snapshot.presenterId)
        | _ => .done none
    else .done none

end Snapshot

/-- `record_endpoints`, for the endpoints of `record`. -/
def recordEndpoints (peerId : Nat) (record : EndpointRecord)
    (via : ObservedVia) : Program Unit :=
  Prog.fold
    (fun _ endpoint =>
      match EndpointKind.parse endpoint.kind with
      | none => .done ()
      | some kind =>
        .call .nowEpoch fun now =>
          .call (.recordPeerEndpoint now peerId kind endpoint.addr
            (some endpoint.observedAt) via (some record)) fun _ => .done ())
    () record.endpoints

/-- The state of the loop: the counts, and the `signed_at` values read before
it, kept current as records are accepted. -/
structure IngestState where
  summary : IngestSummary
  storedSignedAt : Nat → Option Int

/-- Keep the record itself.  It counts as accepted either way. -/
def storeRecord (state : IngestState) (record : EndpointRecord)
    (subject : Nat) : Program IngestState :=
  let summary :=
    { state.summary with accepted := state.summary.accepted + 1 }
  .call (.setPeerGossipRecord subject record) fun
    | .error _ => .done { state with summary }
    | .ok _ => .done
        { summary
          storedSignedAt := Rust.insert state.storedSignedAt subject
            record.signedAt }

/-- Record what an accepted record says, then keep it. -/
def acceptRecord (snapshot : Snapshot) (state : IngestState)
    (record : EndpointRecord) (subject : Nat) : Program IngestState :=
  let via := if subject = snapshot.presenterId then ObservedVia.direct
    else ObservedVia.gossip
  (recordEndpoints subject record via).bind fun _ =>
    storeRecord state record subject

/-- Freshness: never let an older record rewind a newer one. -/
def IngestState.isStale (state : IngestState) (subject : Nat)
    (record : EndpointRecord) : Bool :=
  (state.storedSignedAt subject).any fun stored => record.signedAt ≤ stored

/-- What becomes of a record once its subject is known. -/
def settleRecord (snapshot : Snapshot) (state : IngestState)
    (record : EndpointRecord) (subject : Nat) : Program IngestState :=
  if state.isStale subject record then
    .done { state with
      summary := { state.summary with stale := state.summary.stale + 1 } }
  else acceptRecord snapshot state record subject

/-- A record whose signature holds and whose date a clock may explain. -/
def Crates.admissible (crates : Crates) (now : Int)
    (record : EndpointRecord) : Bool :=
  (crates.verify record).toBool &&
    record.signedAt ≤ Rust.saturatingAdd now maxFutureSkewSecs

/-- One turn of the loop. -/
def ingestRecord (crates : Crates) (snapshot : Snapshot)
    (state : IngestState) (record : EndpointRecord) : Program IngestState :=
  if crates.admissible snapshot.now record then
    (snapshot.subjectOf record).bind fun
      | none => .done { state with
          summary :=
            { state.summary with unknown := state.summary.unknown + 1 } }
      | some subject => settleRecord snapshot state record subject
  else
    .done { state with
      summary := { state.summary with invalid := state.summary.invalid + 1 } }

/-- The `signed_at` of every record that reads, none where the query
failed. -/
def storedSignedAt
    (answer : Except StoreError (List (Nat × StoredRecord))) :
    Nat → Option Int :=
  match answer with
  | .error _ => fun _ => none
  | .ok records =>
    Rust.collected (records.filterMap fun entry =>
      entry.2.signedAt.map fun signedAt => (entry.1, signedAt))

/-- Records beyond `MAX_RECORDS` are not looked at. -/
def ingest (crates : Crates) (presenterId : Nat)
    (records : List EndpointRecord) : Program IngestSummary :=
  .call .listPeers fun
    | .error _ => .done .default
    | .ok peers =>
      .call .nowEpoch fun now =>
        .call (.peerGossipRecords (peers.map (·.id))) fun answer =>
          (Prog.fold (ingestRecord crates ⟨presenterId, peers, now⟩)
            ⟨.default, storedSignedAt answer⟩
            (records.take maxRecords)).bind fun state =>
              .done state.summary

structure Invite where
  url : String
  key : String
  pubkey : Option String
deriving DecidableEq, Repr

structure PairRequest where
  url : String
  key : String
  record : Option EndpointRecord
deriving DecidableEq, Repr

inductive Status where
  | noContent
  | badRequest
  | conflict
  | serviceUnavailable
deriving DecidableEq, Repr

structure Response where
  status : Status
  body : String
deriving DecidableEq, Repr

def maxKeyLen : Nat := 256

def validateUrl (crates : Crates) (url : String) : Except String Unit :=
  match crates.parseUrl url with
  | .error reason =>
    .error s!"the address {url.quote} does not parse: {reason}"
  | .ok parsed =>
    if parsed.1 = "http" ∨ parsed.1 = "https" then .ok ()
    else .error s!"the address {url.quote} is not http or https"

def validateKey (key : String) : Except String Unit :=
  if Rust.trim key = "" then .error "no key was included"
  else if maxKeyLen < key.utf8ByteSize then
    .error "the key is longer than any sharerr issues"
  else .ok ()

/-- The refusals that need nothing but the request and the caller's row. -/
def refusal (crates : Crates) (peer : Peer) (request : PairRequest) :
    Option Response :=
  match validateUrl crates request.url, validateKey request.key,
      request.record with
  | .error reason, _, _ => some ⟨.badRequest, reason⟩
  | .ok _, .error reason, _ => some ⟨.badRequest, reason⟩
  | .ok _, .ok _, none => none
  | .ok _, .ok _, some record =>
    match crates.verify record with
    | .error reason => some ⟨.badRequest, s!"record: {reason}"⟩
    | .ok _ =>
      if peer.pubkey.any fun pinned => pinned ≠ record.pubkey then
        some ⟨.conflict,
          "a different identity is already pinned for this key"⟩
      else none

theorem refusal_ne_noContent {crates : Crates} {peer : Peer}
    {request : PairRequest} {body : String} :
    refusal crates peer request ≠ some ⟨.noContent, body⟩ := by
  intro refused
  unfold refusal at refused
  repeat' split at refused
  all_goals cases refused

/-- The end of `pair`: the record goes through the same ingest as a push. -/
def finishPair (crates : Crates) (peer : Peer) (request : PairRequest) :
    Program Response :=
  match request.record with
  | none => .done ⟨.noContent, ""⟩
  | some record =>
    (ingest crates peer.id [record]).bind fun _ => .done ⟨.noContent, ""⟩

/-- The two writes of `pair`: the key, then the address. -/
def storeOutbound (crates : Crates) (peer : Peer) (request : PairRequest) :
    Program Response :=
  .call (.vaultPut (peerGossipKey peer.id) request.key) fun
    | .error _ => .done ⟨.serviceUnavailable, "could not store the key"⟩
    | .ok _ =>
      match gossipUrl crates (some request.url) with
      | .error _ =>
        .done ⟨.serviceUnavailable, "could not store the address"⟩
      | .ok url =>
        .call (.setPeerGossipUrl peer.id url) fun
          | .ok true => finishPair crates peer request
          | .ok false => .done ⟨.conflict, "no such peer"⟩
          | .error _ =>
            .done ⟨.serviceUnavailable, "could not store the address"⟩

/-- Whether the vault answers with a key for this peer. -/
def keyStored (secrets : Secrets) (peerId : Nat) : Bool :=
  match secrets.get (peerGossipKey peerId) with
  | .ok (some _) => true
  | _ => false

/-- `POST /api/gossip/pair`.  A store that does not open answers like a peer
that cannot be read. -/
def pair (crates : Crates) (callerId : Nat) (request : PairRequest) :
    Program Response :=
  .call (.peer callerId) fun
    | .ok (some peer) =>
      match refusal crates peer request with
      | some response => .done response
      | none =>
        .call .openVault fun
          | .error _ =>
            .done ⟨.serviceUnavailable, "the vault is not open"⟩
          | .ok secrets =>
            if peer.gossipUrl.isSome || keyStored secrets peer.id then
              .done ⟨.conflict,
                "already paired: this instance holds an address or " ++
                  "key for you"⟩
            else storeOutbound crates peer request
    | _ => .done ⟨.serviceUnavailable, "not ready"⟩

/-- The end of `apply_invite`: the address, then the key. -/
def applyOutbound (crates : Crates) (peer : Peer) (invite : Invite) :
    Program (Except String Unit) :=
  match gossipUrl crates (some invite.url) with
  | .error _ => .done (.error "could not save their address")
  | .ok url =>
    .call (.setPeerGossipUrl peer.id url) fun
      | .ok true =>
        .call (.vaultPut (peerGossipKey peer.id) invite.key) fun
          | .ok _ => .done (.ok ())
          | .error _ =>
            .done (.error "could not store the key they issued")
      | .ok false =>
        .done (.error "there is no friend with that id any more")
      | .error _ => .done (.error "could not save their address")

/-- Everything an invite tells us about a friend, the identity first.  The
texts of its failures leave out the detail of the error they wrap. -/
def applyInvite (crates : Crates) (peer : Peer) (invite : Invite) :
    Program (Except String Unit) :=
  match invite.pubkey with
  | none => applyOutbound crates peer invite
  | some pubkey =>
    .call (.bindPeerPubkey peer.id pubkey) fun
      | .ok true => applyOutbound crates peer invite
      | .ok false => .done (.error (s!"{peer.label}'s sharerr now presents " ++
          "a different identity from the one pinned here; if they " ++
          "reinstalled, delete this friend and pair again"))
      | .error _ =>
        .done (.error s!"could not pin {peer.label}'s identity")

/-- `lookup_one`, from the record a lighthouse answered with. -/
def lookupOne (crates : Crates) (url keyHash expectedPubkey : String) :
    Program (Except String (Option EndpointRecord)) :=
  .call (.lighthouseLookup url keyHash) fun
    | .error reason => .done (.error reason)
    | .ok record =>
      if record.pubkey ≠ expectedPubkey ∨
          (crates.verify record).toBool = false then .done (.ok none)
      else .done (.ok (some record))

/-- The lighthouses one after the other, until one answers. -/
def lookupUrls (crates : Crates) (peerId : Nat) (pubkey keyHash : String) :
    List String → Program Unit
  | [] => .done ()
  | url :: urls =>
    (lookupOne crates url keyHash pubkey).bind fun
      | .ok (some record) => recordEndpoints peerId record .lighthouse
      | _ => lookupUrls crates peerId pubkey keyHash urls

def lookupQuietOne (crates : Crates) (urls : List String)
    (secrets : Secrets) (peer : Peer) : Program Unit :=
  match peer.pubkey, secrets.get (peerGossipKey peer.id) with
  | some pubkey, .ok (some key) =>
    lookupUrls crates peer.id pubkey (crates.hashKey key) urls
  | _, _ => .done ()

/-- One friend's part of a lighthouse pass: the vault, the active peers, and
the lookup of the one at `index`, should they be quiet.  The lookups of a pass
run side by side, each over the same two readings. -/
def lookupQuiet (crates : Crates) (urls : List String) (index : Nat) :
    Program Unit :=
  .call .openVault fun
    | .error _ => .done ()
    | .ok secrets =>
      .call .activePeers fun
        | .error _ => .done ()
        | .ok peers =>
          match peers[index]? with
          | none => .done ()
          | some peer => lookupQuietOne crates urls secrets peer

/-- `record_sighting` once its throttle let it through: the source address of
a request, seen first-hand. -/
def recordSighting (peerId : Nat) (kind : EndpointKind) (addr : String) :
    Program Unit :=
  .call .nowEpoch fun observed =>
    .call .nowEpoch fun now =>
      .call (.recordPeerEndpoint now peerId kind addr (some observed) .direct
        none) fun _ => .done ()

/-- The address of a `[[peers]]` block. -/
def restoreSighting (peerId : Nat) (addr : String) : Program Unit :=
  .call .nowEpoch fun now =>
    .call (.recordPeerEndpoint now peerId .api addr none .restored none)
      fun _ => .done ()

/-- `create_peer`, after the validation of its label. -/
def createPeer (label keyHash : String) : Program (Option Peer) :=
  .call .nowEpoch fun now =>
    .call (.createPeer label keyHash now) fun
      | .ok peer => .done (some peer)
      | .error _ => .done none

def revokePeer (id : Nat) : Program Unit :=
  .call .nowEpoch fun now =>
    .call (.revokePeer id now) fun _ => .done ()

def deletePeer (id : Nat) : Program Unit :=
  .call (.deletePeer id) fun _ => .done ()

/-- What may be running at any moment: requests, pollers and the operator. -/
inductive Job where
  | ingest (presenterId : Nat) (records : List EndpointRecord)
  | pair (callerId : Nat) (request : PairRequest)
  | applyInvite (peer : Peer) (invite : Invite)
  | lookupQuiet (urls : List String) (index : Nat)
  | recordSighting (peerId : Nat) (kind : EndpointKind) (addr : String)
  | restoreSighting (peerId : Nat) (addr : String)
  | createPeer (label keyHash : String)
  | revokePeer (id : Nat)
  | deletePeer (id : Nat)

/-- What a finished job leaves behind for its caller. -/
inductive Outcome where
  | summary (summary : IngestSummary)
  | response (response : Response)
  | applied (result : Except String Unit)
  | created (peer : Option Peer)
  | finished
deriving DecidableEq

/-- The program a job of gossip runs, by the handler it comes in at. -/
def Job.program (crates : Crates) : Job → Program Outcome
  | .ingest presenterId records =>
    (Gossip.ingest crates presenterId records).bind fun summary =>
      .done (.summary summary)
  | .pair callerId request =>
    (Gossip.pair crates callerId request).bind fun response =>
      .done (.response response)
  | .applyInvite peer invite =>
    (Gossip.applyInvite crates peer invite).bind fun result =>
      .done (.applied result)
  | .lookupQuiet urls index =>
    (Gossip.lookupQuiet crates urls index).bind fun _ => .done .finished
  | .recordSighting peerId kind addr =>
    (Gossip.recordSighting peerId kind addr).bind fun _ => .done .finished
  | .restoreSighting peerId addr =>
    (Gossip.restoreSighting peerId addr).bind fun _ => .done .finished
  | .createPeer label keyHash =>
    (Gossip.createPeer label keyHash).bind fun peer =>
      .done (.created peer)
  | .revokePeer id => (Gossip.revokePeer id).bind fun _ => .done .finished
  | .deletePeer id => (Gossip.deletePeer id).bind fun _ => .done .finished

/-- Any number of jobs over one store, none of them begun. -/
def pool (crates : Crates) (world : World) (jobs : Nat → Job) :
    Process.Pool Nat World Call Answer Outcome where
  world := world
  threads thread := (jobs thread).program crates

/-- Crates that behave as the real ones do on the runs written out below: a
record is signed by the holder of its key, and an `http` URL is its own normal
form. -/
def plainCrates : Crates where
  verify record :=
    if record.signature = "signed by " ++ record.pubkey then .ok ()
    else .error "signature does not verify"
  parseUrl url :=
    if "http://".toList.isPrefixOf url.toList then .ok ("http", url)
    else .error "relative URL without a base"
  hashKey key := "hash of " ++ key

/-- A record of the holder of `pubkey`, naming one tracker. -/
def signedRecord (pubkey addr : String) (signedAt : Int) : EndpointRecord :=
  ⟨pubkey, [⟨"tracker", addr, signedAt⟩], signedAt, "signed by " ++ pubkey⟩

/-- A peer as `create_peer` made it at second 100. -/
def freshPeer (id : Nat) (label keyHash : String) : Peer :=
  ⟨id, label, 100, none, none, none, keyHash⟩

end Gossip

end Sharerr
