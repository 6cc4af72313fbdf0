import Sharerr.Friends.Rules
import Sharerr.Friends.Store
import Sharerr.Process.Solo
import Sharerr.Rust.HashMap

/-!
# The export of friends

`export` reads the active friends, where each was seen, and the keys they
issued, and makes a `[[peers]]` entry of each.  The rendering of the entries
as TOML is left out.
-/

namespace Sharerr

def EndpointKind.asStr : EndpointKind → String
  | .api => "api"
  | .client => "client"
  | .tracker => "tracker"

theorem EndpointKind.asStr_injective {left right : EndpointKind}
    (same : left.asStr = right.asStr) : left = right := by
  cases left <;> cases right <;> first | rfl | simp [asStr] at same

namespace EndpointTable

/-- `ORDER BY peer_id, kind, observed_at DESC, id DESC`. -/
def byPeer (left right : EndpointRow) : Prop :=
  left.peerId < right.peerId ∨ left.peerId = right.peerId ∧
    (left.kind.asStr < right.kind.asStr ∨
      left.kind = right.kind ∧ newestFirst left right)

instance : DecidableRel byPeer := fun _ _ =>
  inferInstanceAs (Decidable (_ ∨ _ ∧ (_ ∨ _ ∧ _)))

instance : Std.Total byPeer where
  total left right := by
    unfold byPeer newestFirst
    rcases lt_trichotomy left.peerId right.peerId with lower | same | higher
    · exact .inl (.inl lower)
    · rcases lt_trichotomy left.kind.asStr right.kind.asStr with
        lower | sameKind | higher
      · exact .inl (.inr ⟨same, .inl lower⟩)
      · have kinds := EndpointKind.asStr_injective sameKind
        rcases lt_trichotomy left.observedAt right.observedAt with
          older | sameTime | newer
        · exact .inr (.inr ⟨same.symm, .inr ⟨kinds.symm, .inl older⟩⟩)
        · rcases Nat.le_total right.id left.id with above | below
          · exact .inl (.inr ⟨same, .inr ⟨kinds, .inr ⟨sameTime, above⟩⟩⟩)
          · exact .inr (.inr ⟨same.symm,
              .inr ⟨kinds.symm, .inr ⟨sameTime.symm, below⟩⟩⟩)
        · exact .inl (.inr ⟨same, .inr ⟨kinds, .inl newer⟩⟩)
      · exact .inr (.inr ⟨same.symm, .inl higher⟩)
    · exact .inr (.inl higher)

instance : IsTrans EndpointRow byPeer where
  trans left middle right first second := by
    unfold byPeer newestFirst at *
    rcases first with lower | ⟨same, first⟩
    · rcases second with further | ⟨same, -⟩
      · exact .inl (by omega)
      · exact .inl (by omega)
    · rcases second with further | ⟨same', second⟩
      · exact .inl (by omega)
      · refine .inr ⟨same.trans same', ?_⟩
        rcases first with lower | ⟨kind, first⟩
        · rcases second with further | ⟨kind, -⟩
          · exact .inl (lower.trans further)
          · exact .inl (kind ▸ lower)
        · rcases second with further | ⟨kind', second⟩
          · exact .inl (kind.symm ▸ further)
          · exact .inr ⟨kind.trans kind', by omega⟩

/-- The rows `peer_endpoints_for` selects. -/
def ofPeers (table : EndpointTable) (ids : List Nat) : List EndpointRow :=
  (table.rows.filter fun row => row.peerId ∈ ids).insertionSort byPeer

end EndpointTable

/-- `peer_endpoints_for` past its statement: the rows by the peer they belong
to. -/
def peerEndpointsFor (rows : List EndpointRow) :
    Rust.HashMap Nat (List EndpointRow) :=
  rows.foldl (fun byPeer row => byPeer.insert row.peerId
    ((byPeer.get row.peerId).getD [] ++ [row])) .empty

namespace Friends

open Process (Prog Ends)
open Gossip (peerGossipKey)
open Settings (PeerImport)

/-- A row as `active_peers` reads it. -/
structure ActivePeer extends Peer, Details
deriving DecidableEq, Repr

namespace World

def active (world : World) : List ActivePeer :=
  world.peers.activePeers.map fun peer => ⟨peer, world.details peer.id⟩

end World

inductive ExportCall where
  | openStore
  | activePeers
  | endpointsOf (ids : List Nat)
  | secretsPresent
  | openVault
deriving DecidableEq, Repr

@[reducible] def ExportAnswer : ExportCall → Type
  | .openStore => Except String Unit
  | .activePeers => Except StoreError (List ActivePeer)
  | .endpointsOf _ => Except StoreError (List EndpointRow)
  | .secretsPresent => Except VaultError (List String)
  | .openVault => Except VaultError Gossip.Secrets

inductive ExportResponse where
  | unavailable (reason : String)
  | rejected (message : String)
  /-- The document, and whether it says that keys are missing from it. -/
  | download (peers : List PeerImport) (vaultUnavailable : Bool)
deriving DecidableEq, Repr

abbrev ExportEvent := Process.Event Nat ExportCall ExportAnswer

/-- `latest_endpoint`. -/
def latestEndpoint (endpoints : List EndpointRow) (kind : EndpointKind) :
    Option EndpointRow :=
  endpoints.find? fun endpoint => endpoint.kind = kind

/-- The entry of one friend. -/
def peerImport (endpointsByPeer : Rust.HashMap Nat (List EndpointRow))
    (vault : Option Gossip.Secrets) (peer : ActivePeer) : PeerImport where
  label := peer.label
  scope := peer.scope.asStr
  maxSizeBytes := peer.maxSizeBytes
  maxHeight := peer.maxHeight
  lastAddr := ((endpointsByPeer.get peer.id).bind fun endpoints =>
    latestEndpoint endpoints .api).map (·.addr)
  gossipUrl := peer.gossipUrl
  gossipKey := vault.bind fun vault =>
    (vault.get (peerGossipKey peer.id)).toOption.join

/-- `export` from the reading of the vault's key names on: the vault is opened
when a friend has a key in it. -/
def exportWith (active : List ActivePeer)
    (endpointsByPeer : Rust.HashMap Nat (List EndpointRow))
    (storedSecrets : List String) :
    Prog ExportCall ExportAnswer ExportResponse :=
  if active.any fun peer =>
      storedSecrets.contains (peerGossipKey peer.id) then
    .call .openVault fun vault =>
      .done (.download
        (active.map (peerImport endpointsByPeer vault.toOption))
        vault.toOption.isNone)
  else .done (.download (active.map (peerImport endpointsByPeer none)) false)

/-- `export` of the Friends page. -/
def exportPeers : Prog ExportCall ExportAnswer ExportResponse :=
  .call .openStore fun
    | .error reason => .done (.unavailable reason)
    | .ok _ => .call .activePeers fun
        | .error reason =>
          .done (.rejected s!"could not list friends: {reason.text}")
        | .ok active =>
          .call (.endpointsOf (active.map (·.id))) fun rows =>
            .call .secretsPresent fun names =>
              exportWith active (peerEndpointsFor (rows.toOption.getD []))
                (names.toOption.getD [])

/-- Nothing `export` calls changes anything. -/
def performExport : Process.Perform Nat World ExportCall ExportAnswer :=
  fun _ world request answer =>
    match request, answer with
    | .openStore, _ => some world
    | .activePeers, .error _ => some world
    | .activePeers, .ok active =>
      if active = world.active then some world else none
    | .endpointsOf _, .error _ => some world
    | .endpointsOf ids, .ok rows =>
      if rows = world.gossip.endpoints.ofPeers ids then some world else none
    | .secretsPresent, .error _ => some world
    | .secretsPresent, .ok names =>
      if names = world.secrets.map (·.1) then some world else none
    | .openVault, .error _ => some world
    | .openVault, .ok secrets =>
      if secrets = world.secrets then some world else none

def exportFailed : (request : ExportCall) → ExportAnswer request → Bool
  | .openStore, .error _ => true
  | .activePeers, .error _ => true
  | .endpointsOf _, .error _ => true
  | .secretsPresent, .error _ => true
  | .openVault, .error _ => true
  | _, _ => false

namespace World

/-- The rows of one friend, as the export comes to see them. -/
def sightings (world : World) (id : Nat) : List EndpointRow :=
  (world.gossip.endpoints.rows.filter fun row => row.peerId = id).insertionSort
    EndpointTable.byPeer

def latestApi (world : World) (id : Nat) : Option String :=
  (latestEndpoint (world.sightings id) .api).map (·.addr)

def gossipKey (world : World) (id : Nat) : Option String :=
  (world.secrets.get (peerGossipKey id)).toOption.join

/-- What the tables and the vault say of a friend. -/
def entryOf (world : World) (peer : ActivePeer) : PeerImport where
  label := peer.label
  scope := peer.scope.asStr
  maxSizeBytes := peer.maxSizeBytes
  maxHeight := peer.maxHeight
  lastAddr := world.latestApi peer.id
  gossipUrl := peer.gossipUrl
  gossipKey := world.gossipKey peer.id

def exported (world : World) : List PeerImport :=
  world.active.map world.entryOf

end World

theorem filter_orderedInsert {α : Type} {below : α → α → Prop}
    [DecidableRel below] [IsTrans α below] {keep : α → Bool} {item : α}
    {items : List α} (sorted : items.Pairwise below) :
    (items.orderedInsert below item).filter keep =
      if keep item then (items.filter keep).orderedInsert below item
      else items.filter keep := by
  induction items with
  | nil => simp [List.filter_cons]
  | cons first rest ih =>
    have ih := ih sorted.of_cons
    by_cases before : below item first
    · have all : ∀ other ∈ (first :: rest).filter keep, below item other := by
        intro other member
        rcases List.mem_cons.mp (List.mem_of_mem_filter member) with
          rfl | later
        · exact before
        · exact trans_of below before
            (List.rel_of_pairwise_cons sorted later)
      rw [List.orderedInsert_cons_of_le _ _ before, List.filter_cons]
      split
      · cases kept : (first :: rest).filter keep with
        | nil => rfl
        | cons other others =>
          rw [List.orderedInsert_cons_of_le]
          exact all other (kept ▸ List.mem_cons_self)
      · rfl
    · rw [List.orderedInsert_of_not_le _ _ before, List.filter_cons,
        List.filter_cons, ih]
      by_cases kept : keep first = true
      · by_cases keepItem : keep item = true
        · simp [kept, keepItem, before]
        · simp [kept, keepItem]
      · simp [kept]

/-- The rows that are kept are sorted as they are among all. -/
theorem filter_insertionSort {α : Type} {below : α → α → Prop}
    [DecidableRel below] [Std.Total below] [IsTrans α below] {keep : α → Bool}
    (items : List α) :
    (items.insertionSort below).filter keep =
      (items.filter keep).insertionSort below := by
  induction items with
  | nil => rfl
  | cons item items ih =>
    rw [List.insertionSort_cons,
      filter_orderedInsert (List.pairwise_insertionSort below items), ih,
      List.filter_cons]
    split
    · rw [List.insertionSort_cons]
    · rfl

theorem get_peerEndpointsFor (rows : List EndpointRow) (id : Nat) :
    ((peerEndpointsFor rows).get id).getD [] =
      rows.filter fun row => row.peerId = id := by
  induction rows using List.reverseRecOn with
  | nil => rfl
  | append_singleton rows row ih =>
    rw [peerEndpointsFor, List.foldl_append, ← peerEndpointsFor]
    simp only [List.foldl_cons, List.foldl_nil, Rust.HashMap.get_insert,
      List.filter_append]
    by_cases same : id = row.peerId
    · subst same
      simp [ih]
    · simp [same, Ne.symm same, ih]

theorem latest_of_peerEndpointsFor {world : World} {ids : List Nat} {id : Nat}
    (wanted : id ∈ ids) :
    (((peerEndpointsFor (world.gossip.endpoints.ofPeers ids)).get id).bind
      fun endpoints => latestEndpoint endpoints .api).map (·.addr) =
        world.latestApi id := by
  have grouped := get_peerEndpointsFor (world.gossip.endpoints.ofPeers ids) id
  have own : (world.gossip.endpoints.ofPeers ids).filter
      (fun row => row.peerId = id) = world.sightings id := by
    rw [EndpointTable.ofPeers, filter_insertionSort, List.filter_filter,
      World.sightings]
    congr 2
    funext row
    by_cases same : row.peerId = id
    · simp [same, wanted]
    · simp [same]
  rw [own] at grouped
  rw [World.latestApi, ← grouped]
  cases (peerEndpointsFor (world.gossip.endpoints.ofPeers ids)).get id with
  | none => rfl
  | some endpoints => rfl

/-- What a call of an export answers that does not fail. -/
def World.told (world : World) : ∀ request, ExportAnswer request
  | .openStore => .ok ()
  | .activePeers => .ok world.active
  | .endpointsOf ids => .ok (world.gossip.endpoints.ofPeers ids)
  | .secretsPresent => .ok (world.secrets.map (·.1))
  | .openVault => .ok world.secrets

theorem performExport_told {thread : Nat} {world after : World}
    {request : ExportCall} {answer : ExportAnswer request}
    (worked : exportFailed request answer = false)
    (performed : performExport thread world request answer = some after) :
    after = world ∧ answer = world.told request := by
  cases request with
  | openStore =>
    cases answer with
    | error => cases worked
    | ok =>
      cases performed
      exact ⟨rfl, rfl⟩
  | activePeers | endpointsOf | secretsPresent | openVault =>
    cases answer with
    | error => cases worked
    | ok =>
      obtain ⟨rfl, rfl⟩ := Gossip.of_guarded performed
      exact ⟨rfl, rfl⟩

theorem get_eq_none_of_absent {secrets : Gossip.Secrets} {key : String}
    (absent : key ∉ secrets.map (·.1)) : secrets.get key = .ok none := by
  have missing : secrets.find? (fun entry => entry.1 = key) = none := by
    rw [List.find?_eq_none]
    intro entry member
    rw [decide_eq_true_eq]
    rintro rfl
    exact absent (List.mem_map_of_mem member)
  rw [Gossip.Secrets.get, missing]

theorem exportPeers_told (world : World) :
    exportPeers.answeredBy world.told = .download world.exported false := by
  have entries (vault : Option Gossip.Secrets)
      (keys : ∀ peer ∈ world.active, (vault.bind fun vault =>
        (vault.get (peerGossipKey peer.id)).toOption.join) =
          world.gossipKey peer.id) :
      world.active.map (peerImport (peerEndpointsFor
        (world.gossip.endpoints.ofPeers (world.active.map (·.id)))) vault) =
          world.exported := by
    apply List.map_congr_left
    intro peer member
    rw [peerImport, World.entryOf, keys peer member,
      latest_of_peerEndpointsFor (List.mem_map_of_mem member)]
  change (exportWith world.active _ (world.secrets.map (·.1))).answeredBy
    world.told = _
  unfold exportWith
  split
  · have same := entries (some world.secrets) fun _ _ => rfl
    rw [← same]
    rfl
  · rename_i keyless
    rw [Prog.answeredBy]
    refine congrArg (ExportResponse.download · false) (entries none ?_)
    intro peer member
    have absent : peerGossipKey peer.id ∉ world.secrets.map (·.1) := by
      intro named
      exact keyless (List.any_eq_true.mpr
        ⟨peer, member, List.contains_iff_mem.mpr named⟩)
    rw [World.gossipKey, get_eq_none_of_absent absent]
    rfl

/-- An export that can read everything says what the tables and the vault
say of the active friends. -/
theorem exportPeers_ends {thread : Nat} {world after : World}
    {events : List ExportEvent} {response : ExportResponse}
    (ends : Ends performExport thread world exportPeers events after response)
    (worked : ∀ event ∈ events,
      exportFailed event.request event.answer = false) :
    after = world ∧ response = .download world.exported false := by
  rw [← exportPeers_told]
  exact ends.answeredBy fun event member _ performed =>
    performExport_told (worked event member) performed

end Friends

end Sharerr
