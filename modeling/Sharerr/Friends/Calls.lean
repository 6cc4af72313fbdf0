import Sharerr.Gossip.Handlers
import Sharerr.Items.Model
import Sharerr.Settings.Handlers

/-!
# What the Friends page and the importer of friends act on

The calls of the gossip handlers, and those only these pages make: rows with
a scope and limits, the removal of a key, the removal of the `[[peers]]` block.
A vault handle reloads the file under the vault's lock before it writes, so a
write or a removal is one step.
-/

namespace Sharerr

def StoreError.text : StoreError → String
  | sql detail => s!"database error: {detail}"
  | userExists username => s!"a user named {username.quote} already exists"
  | invalidUser message => message
  | invalidGossipUrl value source =>
    s!"{value.quote} is not a valid URL: {source}"

def VaultError.text : VaultError → String
  | noMasterKey =>
    "no master key: set SHARERR_MASTER_KEY or SHARERR_MASTER_KEY_FILE. " ++
      "sharerr will not fall back to storing credentials in plaintext"
  | emptyMasterKey => "master key is empty"
  | masterKeyFile path source =>
    s!"could not read master key file {path}: {source}"
  | io path source => s!"vault I/O error at {path}: {source}"
  | corrupt detail => s!"vault is corrupt or truncated: {detail}"
  | unsupportedVersion found =>
    s!"unsupported vault version {found} (this build understands 1)"
  | wrongKey =>
    "could not decrypt the vault — the master key is wrong, or the vault " ++
      "belongs to a different deployment"
  | kdf detail => s!"key derivation failed: {detail}"
  | notUtf8 key => s!"value for {key.quote} is not valid UTF-8"
  | invalidValue _ reason => reason

/-- The reading of a stored scope; an unknown one is `all`. -/
def PeerScope.parse (text : String) : PeerScope :=
  if text = "tv" then .tv
  else if text = "movies" then .movies
  else if text = "music" then .music
  else if text = "books" then .books
  else .all

namespace Gossip.Secrets

/-- Whether the vault's file has a record for the key, readable or not. -/
def holds (secrets : Secrets) (key : String) : Bool :=
  secrets.any fun entry => entry.1 = key

/-- `Vault::remove` after its lock and reload. -/
def remove (secrets : Secrets) (key : String) : Secrets :=
  secrets.filter fun entry => entry.1 ≠ key

variable {secrets : Secrets} {key other : String}

theorem holds_iff :
    secrets.holds key = true ↔ ∃ entry ∈ secrets, entry.1 = key := by
  simp [holds]

theorem holds_put_iff {value : String} :
    (secrets.put key value).holds other = true ↔
      other = key ∨ secrets.holds other = true := by
  by_cases named : other = key
  · subst named
    simp [holds, put]
  · have different : ∀ text : String, text = other → text ≠ key := by
      rintro text rfl
      exact named
    simp only [holds_iff, put, List.mem_append, List.mem_filter,
      List.mem_singleton, named, false_or]
    constructor
    · rintro ⟨entry, ⟨member, -⟩ | rfl, same⟩
      · exact ⟨entry, member, same⟩
      · exact absurd same.symm named
    · rintro ⟨entry, member, same⟩
      exact ⟨entry, .inl ⟨member, by simpa using different _ same⟩, same⟩

theorem holds_remove_iff :
    (secrets.remove key).holds other = true ↔
      other ≠ key ∧ secrets.holds other = true := by
  simp only [holds_iff, remove, List.mem_filter, decide_eq_true_eq]
  constructor
  · rintro ⟨entry, ⟨member, different⟩, rfl⟩
    exact ⟨different, entry, member, rfl⟩
  · rintro ⟨different, entry, member, rfl⟩
    exact ⟨entry, ⟨member, different⟩, rfl⟩

end Gossip.Secrets

namespace Friends

open Process (Prog)
open Gossip (peerGossipKey)

/-- The columns of a peer's row that the gossip code does not read. -/
structure Details where
  scope : PeerScope
  maxSizeBytes : Option Int
  maxHeight : Option Int
deriving DecidableEq, Repr

structure World where
  gossip : Gossip.World
  details : Nat → Details

namespace World

def peers (world : World) : PeerTable :=
  world.gossip.peers

def secrets (world : World) : Gossip.Secrets :=
  world.gossip.secrets

def labels (world : World) : List String :=
  world.peers.rows.map (·.label)

def withPeers (world : World) (peers : PeerTable) : World :=
  { world with gossip := { world.gossip with peers } }

def withSecrets (world : World) (secrets : Gossip.Secrets) : World :=
  { world with gossip := { world.gossip with secrets } }

def setDetails (world : World) (id : Nat) (details : Details) : World :=
  { world with details := Function.update world.details id details }

end World

inductive Call where
  | gossip (wanted : Gossip.Call)
  | openStore
  | randomHex
  /-- `now` is read before the row is inserted; nothing depends on it. -/
  | createPeer (label keyHash : String) (scope : PeerScope) (now : Int)
  | setPeerLimits (id : Nat) (maxSizeBytes maxHeight : Option Int)
  | peerByKeyHash (hash : String)
  | vaultRemove (key : String)
  | stripPeersBlock
deriving DecidableEq

@[reducible] def Answer : Call → Type
  | .gossip wanted => Gossip.Answer wanted
  | .openStore => Except String Unit
  | .randomHex => Except String String
  | .createPeer _ _ _ _ => Except StoreError Peer
  | .setPeerLimits _ _ _ => Except StoreError Bool
  | .peerByKeyHash _ => Except StoreError (Option Peer)
  | .vaultRemove _ => Except VaultError Bool
  | .stripPeersBlock => Except String Unit

abbrev Program := Prog Call Answer

abbrev Event := Process.Event Nat Call Answer

/-- A handler of the gossip code as part of this one. -/
def gossip {α : Type} (program : Gossip.Program α) : Program α :=
  program.lift .gossip fun _ answer => answer

/-- What one call does.  A failure may answer any fallible call and leaves
everything as it is; any other answer has to be the one the tables give. -/
def perform : Process.Perform Nat World Call Answer :=
  fun thread world request answer =>
    match request, answer with
    | .gossip wanted, answer =>
      (Gossip.perform thread world.gossip wanted answer).map fun gossip =>
        { world with gossip }
    | .openStore, _ => some world
    | .randomHex, _ => some world
    | .createPeer label keyHash _ now, .error reason =>
      match reason with
      | .userExists username =>
        if username = label ∧ world.peers.insert label keyHash now = none
        then some world else none
      | _ => some world
    | .createPeer label keyHash scope now, .ok peer =>
      match world.peers.insert label keyHash now with
      | none => none
      | some (created, peers) =>
        if peer = created then
          some ((world.withPeers peers).setDetails peer.id
            ⟨scope, none, none⟩)
        else none
    | .setPeerLimits _ _ _, .error _ => some world
    | .setPeerLimits id maxSizeBytes maxHeight, .ok changed =>
      if changed = (world.peers.row? id).isSome then
        some (world.setDetails id
          { world.details id with maxSizeBytes, maxHeight })
      else none
    | .peerByKeyHash _, .error _ => some world
    | .peerByKeyHash hash, .ok peer =>
      if peer = (world.peers.rows.find? fun row =>
          row.keyHash = hash && row.revokedAt.isNone).map (·.toPeer) then
        some world
      else none
    | .vaultRemove _, .error _ => some world
    | .vaultRemove key, .ok existed =>
      if existed = world.secrets.holds key then
        some (world.withSecrets (world.secrets.remove key))
      else none
    | .stripPeersBlock, _ => some world

end Friends

end Sharerr
