import Sharerr.Rust.IpAddr
import Sharerr.Rust.Text
import Sharerr.Tracker.Download

/-!
# The announce protocol

A query string becomes a request, a request updates the swarm it is about and
is answered with other members of that swarm.  Swarms are kept in memory only;
a member that has missed two announces is forgotten.
-/

namespace Sharerr

namespace Announce

/-- The pairs of a query string: everything up to the first `=` is the key. -/
def splitPair (pair : Bytes) : Bytes × Bytes :=
  let key := pair.takeWhile fun byte => byte ≠ 61
  (key, pair.drop (key.length + 1))

def hexByte (byte : UInt8) : Option Nat :=
  Tracker.hexValue (Char.ofNat byte.toNat)

/-- `percent_encoding::percent_decode`: a `%` without two digits stays. -/
def percentDecoded : Bytes → Bytes
  | 37 :: high :: low :: rest =>
    match hexByte high, hexByte low with
    | some high, some low =>
      UInt8.ofNat (high * 16 + low) :: percentDecoded rest
    | _, _ => 37 :: percentDecoded (high :: low :: rest)
  | byte :: rest => byte :: percentDecoded rest
  | [] => []

section

variable (decoder : Bytes → Bytes)

/-- `percent_decode`, over the decoder of the crate: a `+` is a space. -/
def percentDecodeBy (raw : Bytes) : Bytes :=
  decoder (raw.map fun byte => if byte = 43 then 32 else byte)

/-- `parse_query`; a pair whose key is not UTF-8 is passed over. -/
def parseQueryBy (query : Bytes) : List (String × Bytes) :=
  (query.splitOn 38).filterMap fun pair =>
    if pair.isEmpty then none
    else
      let (key, value) := splitPair pair
      (Vault.fromUtf8 key).map fun key =>
        (key, percentDecodeBy decoder value)

end

inductive AnnounceError where
  | missing (parameter : String)
  | badLength (field : String) (len : Nat)
  | notANumber (field : String)
  | unknownTorrent
  | badToken
deriving DecidableEq, Repr

/-- Twenty bytes. -/
abbrev HashBytes := { bytes : Bytes // bytes.length = Tracker.hashLen }

abbrev InfoHash := HashBytes

abbrev PeerId := HashBytes

inductive Event where
  | started
  | stopped
  | completed
  | none
deriving DecidableEq, Repr

def Event.parse (raw : Bytes) : Event :=
  if raw = Vault.toUtf8 "started" then .started
  else if raw = Vault.toUtf8 "stopped" then .stopped
  else if raw = Vault.toUtf8 "completed" then .completed
  else .none

structure AnnounceRequest where
  infoHash : InfoHash
  peerId : PeerId
  port : Nat
  left : Nat
  uploaded : Nat
  downloaded : Nat
  event : Event
  compact : Bool
  numwant : Nat
  declaredIp : Option Rust.IpAddr
deriving DecidableEq, Repr

def maxNumwant : Nat := 50

def hashParameter (params : String → Option Bytes) (key : String) :
    Except AnnounceError HashBytes :=
  match params key with
  | none => .error (.missing key)
  | some raw =>
    if exact : raw.length = Tracker.hashLen then .ok ⟨raw, exact⟩
    else .error (.badLength key raw.length)

/-- A `u64` parameter, with its default. -/
def numberParameter (params : String → Option Bytes) (key : String)
    (default : Nat) : Except AnnounceError Nat :=
  match params key with
  | none => .ok default
  | some raw =>
    match (Vault.fromUtf8 raw).bind Rust.parseU64 with
    | some number => .ok number
    | none => .error (.notANumber key)

def portParameter (params : String → Option Bytes) :
    Except AnnounceError Nat := do
  let port ← numberParameter params "port" 0
  if 65536 ≤ port then throw (.notANumber "port")
  if port = 0 then throw (.missing "port")
  return port

/-- Of a parameter given twice the last counts. -/
def AnnounceRequest.parseBy (decoder : Bytes → Bytes) (query : Bytes) :
    Except AnnounceError AnnounceRequest := do
  let params := Rust.collected (parseQueryBy decoder query)
  let port ← portParameter params
  return {
    infoHash := ← hashParameter params "info_hash"
    peerId := ← hashParameter params "peer_id"
    port
    left := ← numberParameter params "left" 0
    uploaded := ← numberParameter params "uploaded" 0
    downloaded := ← numberParameter params "downloaded" 0
    event := (params "event").elim .none Event.parse
    compact := (params "compact").all (· ≠ Vault.toUtf8 "0")
    numwant := min (← numberParameter params "numwant" maxNumwant) maxNumwant
    declaredIp := ((params "ip").bind Vault.fromUtf8).bind Rust.IpAddr.parse }

def AnnounceRequest.parse (query : Bytes) :
    Except AnnounceError AnnounceRequest :=
  AnnounceRequest.parseBy percentDecoded query

/-- `endpoint::is_private_ip`. -/
def isPrivateIp : Rust.IpAddr → Bool
  | .v4 bits =>
    bits >>> 24 = 10#32 || bits >>> 20 = 0xAC1#32 || bits >>> 16 = 0xC0A8#32 ||
      bits >>> 24 = 127#32 || bits >>> 16 = 0xA9FE#32
  | .v6 bits => bits = 1#128 || bits >>> 112 &&& 0xFE00#128 = 0xFC00#128

structure SocketAddr where
  ip : Rust.IpAddr
  port : Nat
deriving DecidableEq, Repr

/-- The address to record for the client of a request that came from
`remote`. -/
def AnnounceRequest.resolveAddr (request : AnnounceRequest)
    (remote : Rust.IpAddr) : SocketAddr :=
  let remote := remote.toCanonical
  let ip := match request.declaredIp.map (·.toCanonical) with
    | some declared => if isPrivateIp remote then declared else remote
    | none => remote
  ⟨ip, request.port⟩

structure Peer where
  addr : SocketAddr
  left : Nat
  uploaded : Nat
  downloaded : Nat
  lastSeen : Nat
deriving DecidableEq, Repr

/-- In nanoseconds, like every instant here. -/
def peerTtl : Nat := (1800 * 2 + 60) * 1000000000

def Peer.isLive (peer : Peer) (now : Nat) : Bool :=
  now - peer.lastSeen < peerTtl

/-- The members of one swarm, each id once. -/
structure Swarm where
  members : List (PeerId × Peer)
  distinct : (members.map (·.1)).Nodup

namespace Swarm

def empty : Swarm := ⟨[], List.nodup_nil⟩

/-- `HashMap::retain`. -/
def retain (swarm : Swarm) (keep : PeerId × Peer → Bool) : Swarm where
  members := swarm.members.filter keep
  distinct := swarm.distinct.sublist (List.filter_sublist.map _)

def remove (swarm : Swarm) (peerId : PeerId) : Swarm :=
  swarm.retain fun member => member.1 ≠ peerId

def insert (swarm : Swarm) (peerId : PeerId) (peer : Peer) : Swarm where
  members := (swarm.remove peerId).members ++ [(peerId, peer)]
  distinct := by
    apply Keyed.nodup_append (swarm.remove peerId).distinct
    simp [remove, retain]

def get (swarm : Swarm) (peerId : PeerId) : Option Peer :=
  (Keyed.find (·.1) swarm.members peerId).map (·.2)

/-- Seeders and leechers. -/
def tally (swarm : Swarm) (now : Nat) : Nat × Nat :=
  (swarm.members.filter fun member => member.2.isLive now).foldl
    (fun counts member =>
      if member.2.left = 0 then (counts.1 + 1, counts.2)
      else (counts.1, counts.2 + 1))
    (0, 0)

variable {swarm : Swarm} {peerId : PeerId} {peer : Peer}

theorem mem_retain {keep : PeerId × Peer → Bool} {member : PeerId × Peer} :
    member ∈ (swarm.retain keep).members ↔
      member ∈ swarm.members ∧ keep member = true :=
  List.mem_filter

theorem mem_insert {member : PeerId × Peer}
    (among : member ∈ (swarm.insert peerId peer).members) :
    member ∈ swarm.members ∨ member = (peerId, peer) := by
  rcases List.mem_append.mp among with old | new
  · exact .inl (mem_retain.mp old).1
  · exact .inr (List.mem_singleton.mp new)

end Swarm

/-- The order in which a map is walked, which nothing fixes. -/
structure Iteration where
  order : Swarm → List (PeerId × Peer)
  perm : ∀ swarm, (order swarm).Perm swarm.members

def asListed : Iteration := ⟨fun swarm => swarm.members, fun _ => .refl _⟩

/-- A swarm nobody is in is the same as none. -/
abbrev Swarms := InfoHash → Swarm

structure Transfer where
  uploaded : Nat
  downloaded : Nat
deriving DecidableEq, Repr

/-- `checked_sub`, or all of it where the counter went backwards. -/
def step (before now : Nat) : Nat :=
  if before ≤ now then now - before else now

/-- `Transfer::since`, over `(uploaded, downloaded)`. -/
def Transfer.since (previous current : Nat × Nat) : Transfer :=
  ⟨step previous.1 current.1, step previous.2 current.2⟩

structure AnnounceResponse where
  peers : List SocketAddr
  complete : Nat
  incomplete : Nat
  transferred : Transfer
deriving DecidableEq, Repr

namespace Swarms

def start : Swarms := fun _ => Swarm.empty

/-- The swarm after the sweep and the announce. -/
def joined (swarms : Swarms) (request : AnnounceRequest) (addr : SocketAddr)
    (now : Nat) : Swarm :=
  let swarm := (swarms request.infoHash).retain fun member =>
    member.2.isLive now
  if request.event = .stopped then swarm.remove request.peerId
  else swarm.insert request.peerId
    ⟨addr, request.left, request.uploaded, request.downloaded, now⟩

/-- Measured against the entry that survived the sweep. -/
def transferred (swarms : Swarms) (request : AnnounceRequest) (now : Nat) :
    Transfer :=
  let swarm := (swarms request.infoHash).retain fun member =>
    member.2.isLive now
  match swarm.get request.peerId with
  | none => ⟨0, 0⟩
  | some previous =>
    Transfer.since (previous.uploaded, previous.downloaded)
      (request.uploaded, request.downloaded)

def announce (swarms : Swarms) (request : AnnounceRequest) (addr : SocketAddr)
    (now : Nat) (iteration : Iteration) : AnnounceResponse × Swarms :=
  let swarm := swarms.joined request addr now
  let (complete, incomplete) := swarm.tally now
  let peers := (((iteration.order swarm).filter fun member =>
    member.1 ≠ request.peerId).take request.numwant).map (·.2.addr)
  (⟨peers, complete, incomplete, swarms.transferred request now⟩,
    Function.update swarms request.infoHash swarm)

end Swarms

/-- One request to the tracker: what was sent and from where, how the token
was judged and whether the store says the torrent is shared, the clock, and
the order the map happens to have. -/
structure Arrival where
  query : Bytes
  remote : Rust.IpAddr
  auth : Except AnnounceError Tracker.TokenAuth
  served : InfoHash → Bool
  now : Nat
  iteration : Iteration

/-- What an arrival is admitted with. -/
def Arrival.admitted (arrival : Arrival) :
    Except AnnounceError (AnnounceRequest × Tracker.TokenAuth) := do
  let request ← AnnounceRequest.parse arrival.query
  let auth ← arrival.auth
  if !arrival.served request.infoHash then throw .unknownTorrent
  return (request, auth)

/-- `handle_announce` up to what it records in the store. -/
def handleAnnounce (swarms : Swarms) (arrival : Arrival) :
    Except AnnounceError AnnounceResponse × Swarms :=
  match arrival.admitted with
  | .error reason => (.error reason, swarms)
  | .ok (request, _) =>
    let (response, swarms) := swarms.announce request
      (request.resolveAddr arrival.remote) arrival.now arrival.iteration
    (.ok response, swarms)

/-- The swarms after a run of arrivals. -/
def after (arrivals : List Arrival) : Swarms :=
  arrivals.foldl (fun swarms arrival => (handleAnnounce swarms arrival).2)
    Swarms.start

theorem after_append (arrivals : List Arrival) (arrival : Arrival) :
    after (arrivals ++ [arrival]) =
      (handleAnnounce (after arrivals) arrival).2 := by
  simp [after]

end Announce

end Sharerr
