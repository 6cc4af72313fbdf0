import Sharerr.Peers.Table

/-!
# The `peer_endpoints` table

Where each friend has recently been seen.  A sighting with a timestamp
replaces an older one of the same address; a sighting without one only fills
a gap.  The history of a `(peer, kind)` pair is pruned to its newest entries
whenever a write changed something.
-/

namespace Sharerr

inductive EndpointKind where
  | api
  | client
  | tracker
deriving DecidableEq, Repr

def EndpointKind.parse : String → Option EndpointKind
  | "api" => some .api
  | "client" => some .client
  | "tracker" => some .tracker
  | _ => none

inductive ObservedVia where
  | direct
  | gossip
  | lighthouse
  | restored
deriving DecidableEq, Repr

structure EndpointRow where
  id : Nat
  peerId : Nat
  kind : EndpointKind
  addr : String
  observedAt : Int
  via : ObservedVia
deriving DecidableEq, Repr

structure EndpointTable where
  rows : List EndpointRow
  nextId : Nat
deriving DecidableEq, Repr

def maxFutureSkewSecs : Int := 300

namespace EndpointTable

def empty : EndpointTable := ⟨[], 1⟩

/-- `ORDER BY observed_at DESC, id DESC`. -/
def newestFirst (left right : EndpointRow) : Prop :=
  right.observedAt < left.observedAt ∨
    left.observedAt = right.observedAt ∧ right.id ≤ left.id

instance : DecidableRel newestFirst := fun _ _ =>
  inferInstanceAs (Decidable (_ ∨ _))

/-- Keep the newest `history` rows of one `(peer, kind)` pair. -/
def prune (table : EndpointTable) (history peerId : Nat)
    (kind : EndpointKind) : EndpointTable :=
  let ofPair := fun row : EndpointRow =>
    decide (row.peerId = peerId ∧ row.kind = kind)
  let kept := ((table.rows.filter ofPair).insertionSort newestFirst).take
    history
  let keeps := fun row : EndpointRow =>
    !ofPair row || (kept.map (·.id)).contains row.id
  { table with rows := table.rows.filter keeps }

/-- `Store::record_peer_endpoint`, with the reading of the clock it takes. -/
def recordPeerEndpoint (table : EndpointTable) (history : Nat) (now : Int)
    (peerId : Nat) (kind : EndpointKind) (addr : String)
    (observedAt : Option Int) (via : ObservedVia) : EndpointTable :=
  let at_ := match observedAt with
    | some observed => min observed (Rust.saturatingAdd now maxFutureSkewSecs)
    | none => now
  let isSame := fun row : EndpointRow =>
    decide (row.peerId = peerId ∧ row.kind = kind ∧ row.addr = addr)
  match table.rows.find? isSame with
  | none =>
    let row := ⟨table.nextId, peerId, kind, addr, at_, via⟩
    EndpointTable.prune ⟨table.rows ++ [row], table.nextId + 1⟩ history
      peerId kind
  | some known =>
    -- `INSERT_ONLY` never touches a known address, `UPSERT_NEWER` only
    -- with a newer sighting.
    if observedAt.isSome && known.observedAt < at_ then
      EndpointTable.prune
        { table with rows := table.rows.map fun row =>
            if isSame row then { row with observedAt := at_, via } else row }
        history peerId kind
    else table

/-- `ON DELETE CASCADE`. -/
def forget (table : EndpointTable) (peerId : Nat) : EndpointTable :=
  { table with rows := table.rows.filter fun row => row.peerId ≠ peerId }

end EndpointTable

end Sharerr
