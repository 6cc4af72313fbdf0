import Sharerr.Settings.Calls

/-!
# The importer of friends

`import_peers` and `import_one_peer` over the steps they take in the store, in
the vault and in the configuration.  The settings pages and the Friends page
know these steps in different detail, and each brings its own.
-/

namespace Sharerr

namespace Settings

open Process (Prog)

/-- What the importer asks of the instance it works for. -/
structure ImportSteps (Call : Type) (Answer : Call → Type) where
  openStore : Prog Call Answer (Except String Unit)
  openVault : Prog Call Answer (Except String Unit)
  randomHex : Prog Call Answer (Except String String)
  createPeer (label key scope : String) : Prog Call Answer (Except String Nat)
  setPeerLimits (id : Nat) (maxSizeBytes maxHeight : Option Int) :
    Prog Call Answer (Except String Unit)
  setPeerGossipUrl (id : Nat) (url : String) :
    Prog Call Answer (Except String Unit)
  vaultPut (key value : String) : Prog Call Answer (Except String Unit)
  recordPeerEndpoint (id : Nat) (addr : String) :
    Prog Call Answer (Except String Unit)
  /-- `strip_peers_block`, and what follows when it went well. -/
  stripPeersBlock : Prog Call Answer Unit

/-- `present`. -/
def present (value : Option String) : Option String :=
  value.filter (· ≠ "")

section Programs

variable {Call : Type} {Answer : Call → Type}

/-- A step of `import_one_peer` that is there only when its value is. -/
def whenPresent (value : Option String)
    (wanted : String → Prog Call Answer (Except String Unit)) :
    Prog Call Answer (Except String Unit) :=
  match value with
  | none => .done (.ok ())
  | some value => wanted value

theorem whenPresent_only {allowed : Call → Prop} {value : Option String}
    {wanted : String → Prog Call Answer (Except String Unit)}
    (only : ∀ text, (wanted text).Only allowed) :
    (whenPresent value wanted).Only allowed := by
  cases value with
  | none => trivial
  | some text => exact only text

namespace ImportSteps

variable (steps : ImportSteps Call Answer)

def importLimits (id : Nat) (peer : PeerImport) :
    Prog Call Answer (Except String Unit) :=
  if peer.maxSizeBytes.isSome || peer.maxHeight.isSome then
    steps.setPeerLimits id peer.maxSizeBytes peer.maxHeight
  else .done (.ok ())

def importGossipKey (hasVault : Bool) (id : Nat) (key : String) :
    Prog Call Answer (Except String Unit) :=
  if hasVault then steps.vaultPut (Gossip.peerGossipKey id) key
  else .done (.error "no vault handle available for a gossip key")

/-- What `import_one_peer` applies to the row it created. -/
def importHalves (hasVault : Bool) (id : Nat) (peer : PeerImport) :
    Prog Call Answer (Except String Unit) :=
  (steps.importLimits id peer).attempt fun _ =>
    (whenPresent (present peer.gossipUrl)
      (steps.setPeerGossipUrl id)).attempt fun _ =>
      (whenPresent (present peer.gossipKey)
        (steps.importGossipKey hasVault id)).attempt fun _ =>
        whenPresent (present peer.lastAddr) (steps.recordPeerEndpoint id)

def importOnePeer (hasVault : Bool) (peer : PeerImport) :
    Prog Call Answer (Except String Unit) :=
  steps.randomHex.attempt fun key =>
    (steps.createPeer peer.label key peer.scope).attempt fun id =>
      steps.importHalves hasVault id peer

/-- The entries one after the other; one that fails is skipped. -/
def importEach (hasVault : Bool) (peers : List PeerImport) :
    Prog Call Answer Unit :=
  Prog.fold (fun _ peer =>
    (steps.importOnePeer hasVault peer).bind fun _ => .done ()) () peers

def drainPeers (hasVault : Bool) (peers : List PeerImport) :
    Prog Call Answer Unit :=
  (steps.importEach hasVault peers).bind fun _ => steps.stripPeersBlock

/-- `import_peers`, for the entries of the block. -/
def importPeers (peers : List PeerImport) : Prog Call Answer Unit :=
  if peers = [] then .done ()
  else steps.openStore.bind fun
    | .error _ => .done ()
    | .ok _ =>
      if peers.any fun peer => peer.gossipKey.isSome then
        steps.openVault.bind fun
          | .error _ => .done ()
          | .ok _ => steps.drainPeers true peers
      else steps.drainPeers false peers

end ImportSteps

end Programs

end Settings

end Sharerr
