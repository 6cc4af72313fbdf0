import Mathlib.Data.List.Sort
import Sharerr.Rust.Basic
import Sharerr.Table.Keyed

/-!
# The `peers` table

One row per friend.  `id` is an `AUTOINCREMENT` key, so an id is never given
out twice, and `label` and `key_hash` are unique; the table carries these
facts, and every statement the store runs on it is an operation below.

The columns are those the gossip, pairing, lighthouse and tracker code reads;
scope, limits and the transfer counters are left out.
-/

namespace Sharerr

/-- One address inside a record. -/
structure RecordEndpoint where
  kind : String
  addr : String
  observedAt : Int
deriving DecidableEq, Repr

/-- One peer's self-described endpoints, signed by them. -/
structure EndpointRecord where
  pubkey : String
  endpoints : List RecordEndpoint
  signedAt : Int
  signature : String
deriving DecidableEq, Repr

/-- The text of a `gossip_record` column: what `serde_json` made of a record,
or a text from elsewhere with the `signed_at` that reads out of it, if any. -/
inductive StoredRecord where
  | signed (record : EndpointRecord)
  | foreign (text : String) (signedAt : Option Int)
deriving DecidableEq, Repr

def StoredRecord.signedAt : StoredRecord → Option Int
  | .signed record => some record.signedAt
  | .foreign _ signedAt => signedAt

structure Peer where
  id : Nat
  label : String
  createdAt : Int
  revokedAt : Option Int
  pubkey : Option String
  gossipUrl : Option String
  keyHash : String
deriving DecidableEq, Repr

def Peer.isRevoked (peer : Peer) : Bool :=
  peer.revokedAt.isSome

structure PeerRow extends Peer where
  gossipRecord : Option StoredRecord
deriving DecidableEq, Repr

/-- Errors a store call can end in. -/
inductive StoreError where
  | sql (detail : String)
  | userExists (username : String)
  | invalidUser (message : String)
  | invalidGossipUrl (value source : String)
deriving DecidableEq, Repr

structure PeerTable where
  rows : List PeerRow
  nextId : Nat
  below : ∀ row ∈ rows, row.id < nextId
  ids : (rows.map (·.id)).Nodup
  labels : (rows.map (·.label)).Nodup
  keyHashes : (rows.map (·.keyHash)).Nodup

namespace PeerTable

def empty : PeerTable where
  rows := []
  nextId := 1
  below := by simp
  ids := by simp
  labels := by simp
  keyHashes := by simp

/-- `SELECT … WHERE id = ?1`. -/
def row? (table : PeerTable) (id : Nat) : Option PeerRow :=
  Keyed.find (·.id) table.rows id

/-- `ORDER BY created_at DESC, id DESC`. -/
def newestFirst (left right : Peer) : Prop :=
  right.createdAt < left.createdAt ∨
    left.createdAt = right.createdAt ∧ right.id ≤ left.id

instance : DecidableRel newestFirst := fun _ _ =>
  inferInstanceAs (Decidable (_ ∨ _))

instance : Std.Total newestFirst where
  total left right := by
    unfold newestFirst
    omega

instance : IsTrans Peer newestFirst where
  trans left middle right first second := by
    unfold newestFirst at *
    omega

def listPeers (table : PeerTable) : List Peer :=
  (table.rows.map (·.toPeer)).insertionSort newestFirst

def activePeers (table : PeerTable) : List Peer :=
  table.listPeers.filter fun peer => !peer.isRevoked

/-- A statement that rewrites columns of the row `id`, never the ones that
identify it. -/
def update (table : PeerTable) (id : Nat) (write : PeerRow → PeerRow)
    (keeps : ∀ row, (write row).id = row.id ∧
      (write row).label = row.label ∧ (write row).keyHash = row.keyHash) :
    PeerTable where
  rows := Keyed.modify (·.id) table.rows id write
  nextId := table.nextId
  below := by
    intro row member
    obtain ⟨before, beforeMember, rfl | ⟨-, rfl⟩⟩ := Keyed.mem_modify member
    · exact table.below _ beforeMember
    · rw [(keeps before).1]
      exact table.below _ beforeMember
  ids := by
    rw [Keyed.map_modify fun row => (keeps row).1]
    exact table.ids
  labels := by
    rw [Keyed.map_modify fun row => (keeps row).2.1]
    exact table.labels
  keyHashes := by
    rw [Keyed.map_modify fun row => (keeps row).2.2]
    exact table.keyHashes

/-- `INSERT INTO peers (label, key_hash, created_at)`; `none` where a UNIQUE
constraint refuses it. -/
def insert (table : PeerTable) (label keyHash : String) (createdAt : Int) :
    Option (Peer × PeerTable) :=
  if free : label ∉ table.rows.map (·.label) ∧
      keyHash ∉ table.rows.map (·.keyHash) then
    let row : PeerRow :=
      { id := table.nextId, label, createdAt, revokedAt := none,
        pubkey := none, gossipUrl := none, keyHash, gossipRecord := none }
    some (row.toPeer,
      { rows := table.rows ++ [row]
        nextId := table.nextId + 1
        below := by
          intro other member
          rcases List.mem_append.mp member with old | new
          · exact Nat.lt_succ_of_lt (table.below other old)
          · rw [List.mem_singleton.mp new]
            exact Nat.lt_succ_self _
        ids := by
          apply Keyed.nodup_append table.ids
          intro member
          obtain ⟨old, oldMember, same⟩ := List.mem_map.mp member
          exact absurd same (Nat.ne_of_lt (table.below old oldMember))
        labels := Keyed.nodup_append table.labels free.1
        keyHashes := Keyed.nodup_append table.keyHashes free.2 })
  else none

/-- `DELETE FROM peers WHERE id = ?1`. -/
def delete (table : PeerTable) (id : Nat) : PeerTable where
  rows := Keyed.remove (·.id) table.rows id
  nextId := table.nextId
  below := by
    intro row member
    exact table.below row (Keyed.remove_sublist.subset member)
  ids := table.ids.sublist (Keyed.remove_sublist.map _)
  labels := table.labels.sublist (Keyed.remove_sublist.map _)
  keyHashes := table.keyHashes.sublist (Keyed.remove_sublist.map _)

variable {table : PeerTable} {row : PeerRow} {id other : Nat}

theorem row?_eq_some_iff :
    table.row? id = some row ↔ row ∈ table.rows ∧ row.id = id :=
  Keyed.find_eq_some_iff table.ids

theorem row?_lt_nextId (found : table.row? id = some row) :
    id < table.nextId := by
  obtain ⟨member, named⟩ := row?_eq_some_iff.mp found
  rw [← named]
  exact table.below row member

theorem row?_eq_none_of_nextId_le (unused : table.nextId ≤ id) :
    table.row? id = none := by
  cases found : table.row? id with
  | none => rfl
  | some row =>
    have := row?_lt_nextId found
    omega

theorem mem_listPeers {peer : Peer} :
    peer ∈ table.listPeers ↔ ∃ row ∈ table.rows, row.toPeer = peer := by
  rw [listPeers, List.mem_insertionSort, List.mem_map]

theorem listPeers_sorted : table.listPeers.Pairwise newestFirst :=
  List.pairwise_insertionSort newestFirst _

/-- A listed peer is the row of its id. -/
theorem row?_of_mem_listPeers {peer : Peer}
    (listed : peer ∈ table.listPeers) :
    ∃ row, table.row? peer.id = some row ∧ row.toPeer = peer := by
  obtain ⟨row, member, rfl⟩ := mem_listPeers.mp listed
  exact ⟨row, row?_eq_some_iff.mpr ⟨member, rfl⟩, rfl⟩

theorem mem_listPeers_of_row? (found : table.row? id = some row) :
    row.toPeer ∈ table.listPeers :=
  mem_listPeers.mpr ⟨row, (row?_eq_some_iff.mp found).1, rfl⟩

section Operations

variable {write : PeerRow → PeerRow}
  {keeps : ∀ row, (write row).id = row.id ∧
    (write row).label = row.label ∧ (write row).keyHash = row.keyHash}

theorem row?_update (table : PeerTable) (id other : Nat)
    (write : PeerRow → PeerRow)
    (keeps : ∀ row, (write row).id = row.id ∧
      (write row).label = row.label ∧ (write row).keyHash = row.keyHash) :
    (table.update id write keeps).row? other =
      if other = id then (table.row? other).map write
      else table.row? other :=
  Keyed.find_modify _ _ _ _ _ fun row => (keeps row).1

variable {after : PeerTable} {createdAt : Int} {keyHash label : String}
  {peer : Peer}

theorem insert_eq_some
    (inserted : table.insert label keyHash createdAt = some (peer, after)) :
    peer.id = table.nextId ∧ peer.pubkey = none ∧ peer.gossipUrl = none ∧
      after.nextId = table.nextId + 1 ∧
        after.rows = table.rows ++ [⟨peer, none⟩] := by
  simp only [insert] at inserted
  split at inserted
  · simp only [Option.some.injEq, Prod.mk.injEq] at inserted
    obtain ⟨rfl, rfl⟩ := inserted
    exact ⟨rfl, rfl, rfl, rfl, rfl⟩
  · cases inserted

/-- An inserted row has the label it was inserted with. -/
theorem label_of_insert
    (inserted : table.insert label keyHash createdAt = some (peer, after)) :
    peer.label = label := by
  simp only [insert] at inserted
  split at inserted
  · simp only [Option.some.injEq, Prod.mk.injEq] at inserted
    rw [← inserted.1]
  · cases inserted

theorem revokedAt_of_insert
    (inserted : table.insert label keyHash createdAt = some (peer, after)) :
    peer.revokedAt = none := by
  simp only [insert] at inserted
  split at inserted
  · simp only [Option.some.injEq, Prod.mk.injEq] at inserted
    rw [← inserted.1]
  · cases inserted

/-- An insertion leaves every id already given out alone. -/
theorem row?_insert_old
    (inserted : table.insert label keyHash createdAt = some (peer, after))
    (old : id < table.nextId) : after.row? id = table.row? id := by
  obtain ⟨fresh, -, -, -, rows⟩ := insert_eq_some inserted
  rw [row?, rows]
  apply Keyed.find_append_old
  rw [fresh]
  omega

theorem row?_insert_new
    (inserted : table.insert label keyHash createdAt = some (peer, after)) :
    after.row? table.nextId = some ⟨peer, none⟩ := by
  obtain ⟨fresh, -, -, -, rows⟩ := insert_eq_some inserted
  rw [row?_eq_some_iff, rows]
  exact ⟨by simp, fresh⟩

theorem row?_delete (table : PeerTable) (id other : Nat) :
    (table.delete id).row? other =
      if other = id then none else table.row? other :=
  Keyed.find_remove

end Operations

end PeerTable

end Sharerr
