import Sharerr.Peers.Endpoints
import Sharerr.Process.Pool
import Sharerr.Vault.File

/-!
# The calls of the gossip and pairing handlers

Every handler is a program over single statements of the store, single
operations of the vault and single readings of the clock, so that handlers
interleave between any two of them.  A statement of the store is atomic, and a
failed one changes nothing; the same holds for a vault write, which happens
under the vault's lock.
-/

namespace Sharerr

namespace Gossip

/-- The vault's file under the master key: what `get` answers for the key of
each record, an error included. -/
abbrev Secrets := List (String × Except VaultError String)

namespace Secrets

/-- `Vault::get`. -/
def get (secrets : Secrets) (key : String) :
    Except VaultError (Option String) :=
  match secrets.find? fun entry => entry.1 = key with
  | none => .ok none
  | some (_, .ok value) => .ok (some value)
  | some (_, .error reason) => .error reason

/-- `Vault::put` after its lock and reload. -/
def put (secrets : Secrets) (key value : String) : Secrets :=
  (secrets.filter fun entry => entry.1 ≠ key) ++ [(key, .ok value)]

theorem get_put_same (secrets : Secrets) (key value : String) :
    (secrets.put key value).get key = .ok (some value) := by
  have found : (secrets.put key value).find? (fun entry => entry.1 = key) =
      some (key, .ok value) := by
    have gone : (secrets.filter fun entry => entry.1 ≠ key).find?
        (fun entry => entry.1 = key) = none := by
      simp [List.find?_eq_none]
    rw [put, List.find?_append, gone]
    simp
  rw [get, found]

theorem get_put_other (secrets : Secrets) {key other : String}
    (different : other ≠ key) (value : String) :
    (secrets.put key value).get other = secrets.get other := by
  have same : (secrets.put key value).find? (fun entry => entry.1 = other) =
      secrets.find? fun entry => entry.1 = other := by
    have kept : (secrets.filter fun entry => entry.1 ≠ key).find?
        (fun entry => entry.1 = other) =
          secrets.find? fun entry => entry.1 = other := by
      rw [List.find?_filter]
      congr 1
      funext entry
      by_cases named : entry.1 = other
      · simp [named, different]
      · simp [named]
    rw [put, List.find?_append, kept]
    simp [Ne.symm different]
  rw [get, get, same]

end Secrets

def peerGossipKey (peerId : Nat) : String :=
  "peer.gossip." ++ toString peerId

theorem peerGossipKey_injective {left right : Nat}
    (same : peerGossipKey left = peerGossipKey right) : left = right := by
  have texts : (toString left).toList = (toString right).toList := by
    have lists := congrArg String.toList same
    simp only [peerGossipKey, String.toList_append] at lists
    exact List.append_cancel_left lists
  have digits : Nat.toDigits 10 left = Nat.toDigits 10 right := by
    simpa [Nat.toString_eq_ofList_toDigits] using texts
  calc left = Nat.ofDigitChars 10 (Nat.toDigits 10 left) 0 :=
        (Nat.ofDigitChars_toDigits (by decide) (by decide)).symm
    _ = Nat.ofDigitChars 10 (Nat.toDigits 10 right) 0 := by rw [digits]
    _ = right := Nat.ofDigitChars_toDigits (by decide) (by decide)

/-- What belongs to other crates: the check of a record's signature, the
parser of URLs with the normal form it prints, and the hash of a key. -/
structure Crates where
  verify : EndpointRecord → Except String Unit
  parseUrl : String → Except String (String × String)
  hashKey : String → String

/-- `Url::parse`'s reading of a URL is its scheme and its printed form. -/
def Crates.scheme (crates : Crates) (url : String) : Except String String :=
  (crates.parseUrl url).map (·.1)

structure World where
  peers : PeerTable
  endpoints : EndpointTable
  endpointHistory : Nat
  secrets : Secrets

def World.empty : World := ⟨.empty, .empty, 5, []⟩

/-- One call to the store, the vault, the clock or a lighthouse. -/
inductive Call where
  | listPeers
  | activePeers
  | peer (id : Nat)
  | nowEpoch
  | peerGossipRecords (ids : List Nat)
  | bindPeerPubkey (id : Nat) (pubkey : String)
  /-- `origin` is the record an endpoint was read from.  Nothing depends on
  it: it says where the sighting comes from. -/
  | recordPeerEndpoint (now : Int) (id : Nat) (kind : EndpointKind)
      (addr : String) (observedAt : Option Int) (via : ObservedVia)
      (origin : Option EndpointRecord)
  | setPeerGossipRecord (id : Nat) (record : EndpointRecord)
  | setPeerGossipUrl (id : Nat) (url : Option String)
  | createPeer (label keyHash : String) (now : Int)
  | revokePeer (id : Nat) (now : Int)
  | deletePeer (id : Nat)
  | openVault
  | vaultPut (key value : String)
  | lighthouseLookup (url keyHash : String)
deriving DecidableEq

@[reducible] def Answer : Call → Type
  | .listPeers => Except StoreError (List Peer)
  | .activePeers => Except StoreError (List Peer)
  | .peer _ => Except StoreError (Option Peer)
  | .nowEpoch => Int
  | .peerGossipRecords _ => Except StoreError (List (Nat × StoredRecord))
  | .bindPeerPubkey _ _ => Except StoreError Bool
  | .recordPeerEndpoint _ _ _ _ _ _ _ => Except StoreError Unit
  | .setPeerGossipRecord _ _ => Except StoreError Unit
  | .setPeerGossipUrl _ _ => Except StoreError Bool
  | .createPeer _ _ _ => Except StoreError Peer
  | .revokePeer _ _ => Except StoreError Bool
  | .deletePeer _ => Except StoreError Bool
  | .openVault => Except VaultError Secrets
  | .vaultPut _ _ => Except VaultError Unit
  | .lighthouseLookup _ _ => Except String EndpointRecord

abbrev Program := Process.Prog Call Answer

namespace World

/-- The rows `UPDATE peers SET pubkey = ?2 WHERE id = ?1 AND (pubkey IS NULL
OR pubkey = ?2)` touches. -/
def bindable (world : World) (id : Nat) (pubkey : String) : Bool :=
  (world.peers.row? id).any fun row =>
    row.pubkey.isNone || row.pubkey = some pubkey

def bindPeerPubkey (world : World) (id : Nat) (pubkey : String) : World :=
  { world with
    peers := world.peers.update id
      (fun row => { row with pubkey := some pubkey })
      fun _ => ⟨rfl, rfl, rfl⟩ }

def setPeerGossipRecord (world : World) (id : Nat)
    (record : EndpointRecord) : World :=
  { world with
    peers := world.peers.update id
      (fun row => { row with gossipRecord := some (.signed record) })
      fun _ => ⟨rfl, rfl, rfl⟩ }

def setPeerGossipUrl (world : World) (id : Nat) (url : Option String) :
    World :=
  { world with
    peers := world.peers.update id
      (fun row => { row with gossipUrl := url }) fun _ => ⟨rfl, rfl, rfl⟩ }

def revokePeer (world : World) (id : Nat) (now : Int) : World :=
  { world with
    peers := world.peers.update id
      (fun row => { row with revokedAt := some now })
      fun _ => ⟨rfl, rfl, rfl⟩ }

def deletePeer (world : World) (id : Nat) : World :=
  { world with
    peers := world.peers.delete id
    endpoints := world.endpoints.forget id }

def recordPeerEndpoint (world : World) (now : Int) (id : Nat)
    (kind : EndpointKind) (addr : String) (observedAt : Option Int)
    (via : ObservedVia) : World :=
  { world with
    endpoints := world.endpoints.recordPeerEndpoint
      world.endpointHistory now id kind addr observedAt via }

/-- `SELECT id, gossip_record … WHERE id IN (…) AND gossip_record IS NOT
NULL`. -/
def peerGossipRecords (world : World) (ids : List Nat) :
    List (Nat × StoredRecord) :=
  world.peers.rows.filterMap fun row =>
    if row.id ∈ ids then row.gossipRecord.map fun raw => (row.id, raw)
    else none

end World

/-- `normalized url`: what `set_peer_gossip_url` binds for `url`, blank and
absent clearing the column. -/
def gossipUrl (crates : Crates) : Option String → Except StoreError
    (Option String)
  | none => .ok none
  | some url =>
    let raw := Rust.trim url
    if raw = "" then .ok none
    else match crates.parseUrl raw with
      | .ok parsed => .ok (some parsed.2)
      | .error source => .error (.invalidGossipUrl raw source)

/-- What one call does.  A database, vault or network failure may answer any
fallible call and leaves everything as it is; any other answer has to be the
one the tables give. -/
def perform {Thread : Type} : Process.Perform Thread World Call Answer :=
  fun _ world request answer =>
    match request, answer with
    | .listPeers, .error _ => some world
    | .listPeers, .ok peers =>
      if peers = world.peers.listPeers then some world else none
    | .activePeers, .error _ => some world
    | .activePeers, .ok peers =>
      if peers = world.peers.activePeers then some world else none
    | .peer _, .error _ => some world
    | .peer id, .ok peer =>
      if peer = (world.peers.row? id).map (·.toPeer) then some world
      else none
    | .nowEpoch, _ => some world
    | .peerGossipRecords _, .error _ => some world
    | .peerGossipRecords ids, .ok records =>
      if records = world.peerGossipRecords ids then some world else none
    | .bindPeerPubkey _ _, .error _ => some world
    | .bindPeerPubkey id pubkey, .ok bound =>
      if bound = world.bindable id pubkey then
        if bound then some (world.bindPeerPubkey id pubkey) else some world
      else none
    | .recordPeerEndpoint .., .error _ => some world
    | .recordPeerEndpoint now id kind addr observedAt via _, .ok _ =>
      -- `peer_id` references `peers (id)`
      if (world.peers.row? id).isSome then
        some (world.recordPeerEndpoint now id kind addr observedAt via)
      else none
    | .setPeerGossipRecord _ _, .error _ => some world
    | .setPeerGossipRecord id record, .ok _ =>
      some (world.setPeerGossipRecord id record)
    | .setPeerGossipUrl _ _, .error _ => some world
    | .setPeerGossipUrl id url, .ok changed =>
      if changed = (world.peers.row? id).isSome then
        some (world.setPeerGossipUrl id url)
      else none
    | .createPeer _ _ _, .error _ => some world
    | .createPeer label keyHash now, .ok peer =>
      match world.peers.insert label keyHash now with
      | some (created, peers) =>
        if peer = created then some { world with peers } else none
      | none => none
    | .revokePeer _ _, .error _ => some world
    | .revokePeer id now, .ok changed =>
      if changed = (world.peers.row? id).any (·.revokedAt.isNone) then
        if changed then some (world.revokePeer id now) else some world
      else none
    | .deletePeer _, .error _ => some world
    | .deletePeer id, .ok changed =>
      if changed = (world.peers.row? id).isSome then
        some (world.deletePeer id)
      else none
    | .openVault, .error _ => some world
    | .openVault, .ok secrets =>
      if secrets = world.secrets then some world else none
    | .vaultPut _ _, .error _ => some world
    | .vaultPut key value, .ok _ =>
      some { world with secrets := world.secrets.put key value }
    | .lighthouseLookup _ _, _ => some world

/-- A change of the world, as some call makes it. -/
inductive Write where
  | bind (id : Nat) (pubkey : String)
  | endpoint (now : Int) (id : Nat) (kind : EndpointKind) (addr : String)
      (observedAt : Option Int) (via : ObservedVia)
  | record (id : Nat) (signed : EndpointRecord)
  | url (id : Nat) (address : Option String)
  | create (label keyHash : String) (now : Int)
  | revoke (id : Nat) (now : Int)
  | delete (id : Nat)
  | secret (key value : String)

/-- The write of an answered call, if it makes one. -/
def written : (request : Call) → Answer request → Option Write
  | .bindPeerPubkey id pubkey, .ok true => some (.bind id pubkey)
  | .recordPeerEndpoint now id kind addr observedAt via _, .ok _ =>
    some (.endpoint now id kind addr observedAt via)
  | .setPeerGossipRecord id signed, .ok _ => some (.record id signed)
  | .setPeerGossipUrl id address, .ok _ => some (.url id address)
  | .createPeer label keyHash now, .ok _ => some (.create label keyHash now)
  | .revokePeer id now, .ok true => some (.revoke id now)
  | .deletePeer id, .ok _ => some (.delete id)
  | .vaultPut key value, .ok _ => some (.secret key value)
  | _, _ => none

theorem request_of_record {request : Call} {answer : Answer request}
    {id : Nat} {signed : EndpointRecord}
    (wrote : written request answer = some (.record id signed)) :
    request = .setPeerGossipRecord id signed := by
  unfold written at wrote
  split at wrote <;> cases wrote
  rfl

namespace Write

/-- A write as the store performs it. -/
def apply (world : World) : Write → World
  | .bind id pubkey => world.bindPeerPubkey id pubkey
  | .endpoint now id kind addr observedAt via =>
    world.recordPeerEndpoint now id kind addr observedAt via
  | .record id signed => world.setPeerGossipRecord id signed
  | .url id address => world.setPeerGossipUrl id address
  | .create label keyHash now =>
    match world.peers.insert label keyHash now with
    | some (_, peers) => { world with peers }
    | none => world
  | .revoke id now => world.revokePeer id now
  | .delete id => world.deletePeer id
  | .secret key value =>
    { world with secrets := world.secrets.put key value }

/-- What had to hold for the write to happen. -/
def Enabled (world : World) : Write → Prop
  | .bind id pubkey => world.bindable id pubkey = true
  | .endpoint _ id _ _ _ _ => (world.peers.row? id).isSome
  | _ => True

/-- What the write makes of a row whose id was given out before. -/
def onRow (id : Nat) (row : Option PeerRow) : Write → Option PeerRow
  | .bind target pubkey =>
    if id = target then row.map ({ · with pubkey := some pubkey }) else row
  | .record target signed =>
    if id = target then
      row.map ({ · with gossipRecord := some (.signed signed) })
    else row
  | .url target address =>
    if id = target then row.map ({ · with gossipUrl := address }) else row
  | .revoke target now =>
    if id = target then row.map ({ · with revokedAt := some now }) else row
  | .delete target => if id = target then none else row
  | .endpoint .. => row
  | .create .. => row
  | .secret .. => row

variable {world : World}

theorem row?_apply (write : Write) {id : Nat}
    (old : id < world.peers.nextId) :
    (write.apply world).peers.row? id =
      write.onRow id (world.peers.row? id) := by
  cases write with
  | bind target pubkey =>
    simp only [apply, onRow, World.bindPeerPubkey, PeerTable.row?_update]
  | endpoint => rfl
  | record target signed =>
    simp only [apply, onRow, World.setPeerGossipRecord, PeerTable.row?_update]
  | url target address =>
    simp only [apply, onRow, World.setPeerGossipUrl, PeerTable.row?_update]
  | create label keyHash now =>
    simp only [apply, onRow]
    split
    · rename_i inserted
      exact PeerTable.row?_insert_old inserted old
    · rfl
  | revoke target now =>
    simp only [apply, onRow, World.revokePeer, PeerTable.row?_update]
  | delete target => exact PeerTable.row?_delete ..
  | secret => rfl

theorem nextId_le_apply (write : Write) :
    world.peers.nextId ≤ (write.apply world).peers.nextId := by
  cases write with
  | create label keyHash now =>
    simp only [apply]
    split
    · rename_i inserted
      obtain ⟨-, -, -, next, -⟩ := PeerTable.insert_eq_some inserted
      exact next ▸ Nat.le_succ _
    · exact Nat.le_refl _
  | _ => exact Nat.le_refl _

/-- A row that was not there before is a freshly created one. -/
theorem row?_apply_new (write : Write) {id : Nat} {row : PeerRow}
    (new : world.peers.nextId ≤ id)
    (found : (write.apply world).peers.row? id = some row) :
    row.pubkey = none ∧ row.gossipRecord = none ∧ row.gossipUrl = none := by
  have below := PeerTable.row?_lt_nextId found
  cases write with
  | create label keyHash now =>
    simp only [apply] at found below
    cases inserted : world.peers.insert label keyHash now with
    | none =>
      simp only [inserted] at below
      omega
    | some created =>
      obtain ⟨peer, peers⟩ := created
      simp only [inserted] at below found
      obtain ⟨-, unbound, unset, next, -⟩ :=
        PeerTable.insert_eq_some inserted
      have same : id = world.peers.nextId := by omega
      rw [same, PeerTable.row?_insert_new inserted] at found
      cases found
      exact ⟨unbound, rfl, unset⟩
  | _ => exact absurd below (Nat.not_lt.mpr new)

end Write

theorem of_guarded {α : Type} {guard : Prop} [Decidable guard]
    {world after : α}
    (performed : (if guard then some world else none) = some after) :
    guard ∧ world = after := by
  simpa using performed

/-- An answered call made its write, if it has one, and nothing else. -/
theorem perform_cases {Thread : Type} {thread : Thread}
    {world after : World} {request : Call} {answer : Answer request}
    (performed : perform thread world request answer = some after) :
    (written request answer = none ∧ after = world) ∨
      ∃ write, written request answer = some write ∧
        write.Enabled world ∧ after = write.apply world := by
  cases request with
  | nowEpoch | lighthouseLookup =>
    cases performed
    exact .inl ⟨rfl, rfl⟩
  | listPeers | activePeers | peer | peerGossipRecords | openVault =>
    cases answer with
    | error =>
      cases performed
      exact .inl ⟨rfl, rfl⟩
    | ok => exact .inl ⟨rfl, (of_guarded performed).2.symm⟩
  | setPeerGossipRecord | vaultPut =>
    cases answer with
    | error =>
      cases performed
      exact .inl ⟨rfl, rfl⟩
    | ok =>
      cases performed
      exact .inr ⟨_, rfl, trivial, rfl⟩
  | recordPeerEndpoint | setPeerGossipUrl | deletePeer =>
    cases answer with
    | error =>
      cases performed
      exact .inl ⟨rfl, rfl⟩
    | ok =>
      obtain ⟨guard, rfl⟩ := of_guarded performed
      exact .inr ⟨_, rfl, by first | exact guard | trivial, rfl⟩
  | bindPeerPubkey id pubkey =>
    cases answer with
    | error =>
      cases performed
      exact .inl ⟨rfl, rfl⟩
    | ok bound =>
      simp only [perform] at performed
      obtain ⟨guard, performed⟩ :=
        Option.ite_none_right_eq_some.mp performed
      cases bound with
      | false => exact .inl ⟨rfl, (Option.some.inj performed).symm⟩
      | true =>
        exact .inr ⟨_, rfl, guard.symm, (Option.some.inj performed).symm⟩
  | revokePeer id now =>
    cases answer with
    | error =>
      cases performed
      exact .inl ⟨rfl, rfl⟩
    | ok changed =>
      simp only [perform] at performed
      obtain ⟨-, performed⟩ := Option.ite_none_right_eq_some.mp performed
      cases changed with
      | false => exact .inl ⟨rfl, (Option.some.inj performed).symm⟩
      | true =>
        exact .inr ⟨_, rfl, trivial, (Option.some.inj performed).symm⟩
  | createPeer label keyHash now =>
    cases answer with
    | error =>
      cases performed
      exact .inl ⟨rfl, rfl⟩
    | ok peer =>
      refine .inr ⟨_, rfl, trivial, ?_⟩
      simp only [perform] at performed
      cases inserted : world.peers.insert label keyHash now with
      | none => simp [inserted] at performed
      | some created =>
        simp only [inserted] at performed
        rw [← (of_guarded performed).2]
        simp [Write.apply, inserted]

end Gossip

end Sharerr
