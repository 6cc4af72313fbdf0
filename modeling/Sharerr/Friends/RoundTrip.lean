import Sharerr.Friends.Export

/-!
# Export, then import

What an export says of an instance after the importer has worked through a
block of entries, and so when the friends that come in are the ones that were
exported.
-/

namespace Sharerr

namespace Friends

open Process (Prog Ends)
open Gossip (peerGossipKey)
open Settings (PeerImport ImportSteps present whenPresent
  whenPresent_only)

theorem not_someFailed_cons {thread : Nat} {request : Call}
    {answer : Answer request} {rest : List Event}
    (worked : ¬ SomeFailed (⟨thread, request, answer⟩ :: rest)) :
    failed request answer = false ∧ ¬ SomeFailed rest := by
  constructor
  · rw [Bool.eq_false_iff]
    intro fails
    exact worked ⟨_, List.mem_cons_self, fails⟩
  · intro failing
    exact worked (failing.mono (List.subset_cons_self _ _))

theorem not_someFailed_append {first second : List Event}
    (worked : ¬ SomeFailed (first ++ second)) :
    ¬ SomeFailed first ∧ ¬ SomeFailed second :=
  ⟨fun failing => worked (failing.mono (List.subset_append_left _ _)),
    fun failing => worked (failing.mono (List.subset_append_right _ _))⟩

/-- The address `set_peer_gossip_url` stores for an entry. -/
def landedUrl (crates : Crates) (entry : PeerImport) :
    Except StoreError (Option String) :=
  match present entry.gossipUrl with
  | none => .ok none
  | some url => Gossip.gossipUrl crates.toCrates (some url)

/-- What a later export says of the friend an entry was made into, where every
call works and `history` sightings are kept. -/
def landed (crates : Crates) (history : Nat) (entry : PeerImport) :
    Option PeerImport :=
  match validateLabel entry.label with
  | .error _ => none
  | .ok label =>
    let created : PeerImport :=
      { entry with
        label
        scope := (PeerScope.parse entry.scope).asStr
        lastAddr := none
        gossipUrl := none
        gossipKey := none }
    match landedUrl crates entry with
    | .error _ => some created
    | .ok gossipUrl => some
        { created with
          lastAddr := (present entry.lastAddr).filter fun _ => 0 < history
          gossipUrl
          gossipKey := present entry.gossipKey }

/-- Nothing is kept under an id that was not given out yet. -/
structure Fresh (world : World) : Prop where
  endpoints : ∀ row ∈ world.gossip.endpoints.rows,
    row.peerId < world.peers.nextId
  keys : ∀ id, world.peers.nextId ≤ id →
    world.secrets.get (peerGossipKey id) = .ok none

/-- The friend `row` came to the ones that were there, with these details, this
key and this address. -/
structure Joined (before : World) (row : PeerRow) (details : Details)
    (key addr : Option String) (after : World) : Prop where
  id : row.id = before.peers.nextId
  rows : after.peers.rows = before.peers.rows ++ [row]
  next : after.peers.nextId = before.peers.nextId + 1
  details : after.details = Function.update before.details row.id details
  secrets : ∀ other, after.secrets.get (peerGossipKey other) =
    if other = row.id then .ok key
    else before.secrets.get (peerGossipKey other)
  endpoints : ∃ seen,
    after.gossip.endpoints.rows = before.gossip.endpoints.rows ++ seen ∧
      seen.map (fun row => (row.peerId, row.kind, row.addr)) =
        (addr.map fun addr => (row.id, EndpointKind.api, addr)).toList
  history : after.gossip.endpointHistory = before.gossip.endpointHistory

/-- The entry of a row. -/
def World.entryAt (world : World) (row : PeerRow) : PeerImport :=
  world.entryOf ⟨row.toPeer, world.details row.id⟩

/-- The rows of the friends that count. -/
def World.activeRows (world : World) : List PeerRow :=
  world.peers.rows.filter fun row => !row.isRevoked

theorem exported_perm (world : World) :
    world.exported.Perm (world.activeRows.map world.entryAt) := by
  have listed : world.peers.activePeers.Perm
      (world.activeRows.map (·.toPeer)) := by
    rw [World.activeRows]
    have sorted := List.perm_insertionSort PeerTable.newestFirst
      (world.peers.rows.map (·.toPeer))
    have counted := sorted.filter fun peer => !peer.isRevoked
    rw [List.filter_map] at counted
    exact counted
  have entries := listed.map fun peer : Peer =>
    world.entryOf ⟨peer, world.details peer.id⟩
  rw [List.map_map] at entries
  rw [World.exported, World.active, List.map_map]
  exact entries

section Joining

variable {world before after : World} {row : PeerRow} {details : Details}
variable {key addr : Option String} {id : Nat}

theorem peerId_of_seen {seen : List EndpointRow}
    (told : seen.map (fun row => (row.peerId, row.kind, row.addr)) =
      (addr.map fun addr => (id, EndpointKind.api, addr)).toList)
    {endpoint : EndpointRow} (member : endpoint ∈ seen) :
    endpoint.peerId = id := by
  cases addr with
  | none => simp [List.map_eq_nil_iff.mp told] at member
  | some addr =>
    obtain ⟨only, rfl, same⟩ := List.map_eq_singleton_iff.mp told
    rw [List.mem_singleton.mp member]
    exact (Prod.mk.inj same).1

theorem Joined.fresh (joined : Joined before row details key addr after)
    (fresh : Fresh before) : Fresh after where
  endpoints endpoint member := by
    obtain ⟨seen, rows, told⟩ := joined.endpoints
    rw [rows, List.mem_append] at member
    rw [joined.next]
    rcases member with old | new
    · exact Nat.lt_succ_of_lt (fresh.endpoints endpoint old)
    · rw [peerId_of_seen told new, joined.id]
      exact Nat.lt_succ_self _
  keys id unused := by
    rw [joined.next] at unused
    have different : id ≠ row.id := by
      rw [joined.id]
      omega
    rw [joined.secrets, if_neg different]
    exact fresh.keys id (by omega)

theorem Joined.sightings_old
    (joined : Joined before row details key addr after)
    (old : id ≠ row.id) : after.sightings id = before.sightings id := by
  obtain ⟨seen, rows, told⟩ := joined.endpoints
  have none_ : seen.filter (fun endpoint => endpoint.peerId = id) = [] := by
    rw [List.filter_eq_nil_iff]
    intro endpoint member
    rw [peerId_of_seen told member, decide_eq_true_eq]
    exact Ne.symm old
  rw [World.sightings, World.sightings, rows, List.filter_append, none_,
    List.append_nil]

theorem Joined.latestApi_new
    (joined : Joined before row details key addr after)
    (fresh : Fresh before) : after.latestApi row.id = addr := by
  obtain ⟨seen, rows, told⟩ := joined.endpoints
  have none_ : before.gossip.endpoints.rows.filter
      (fun endpoint => endpoint.peerId = row.id) = [] := by
    rw [List.filter_eq_nil_iff]
    intro endpoint member
    have below := fresh.endpoints endpoint member
    rw [joined.id, decide_eq_true_eq]
    omega
  have all : seen.filter (fun endpoint => endpoint.peerId = row.id) = seen := by
    rw [List.filter_eq_self]
    intro endpoint member
    rw [peerId_of_seen told member, decide_eq_true_eq]
  rw [World.latestApi, World.sightings, rows, List.filter_append, none_, all,
    List.nil_append]
  cases addr with
  | none =>
    rw [List.map_eq_nil_iff.mp told]
    rfl
  | some addr =>
    obtain ⟨only, rfl, same⟩ := List.map_eq_singleton_iff.mp told
    obtain ⟨-, same⟩ := Prod.mk.inj same
    obtain ⟨kind, rfl⟩ := Prod.mk.inj same
    simp [latestEndpoint, kind]

theorem Joined.entryAt_old {other : PeerRow}
    (joined : Joined before row details key addr after)
    (member : other ∈ before.peers.rows) :
    after.entryAt other = before.entryAt other := by
  have old : other.id ≠ row.id := by
    have below := before.peers.below other member
    rw [joined.id]
    omega
  simp only [World.entryAt, World.entryOf, World.latestApi, World.gossipKey,
    joined.sightings_old old, joined.secrets, if_neg old, joined.details,
    Function.update_of_ne old]

theorem Joined.entryAt_new
    (joined : Joined before row details key addr after)
    (fresh : Fresh before) : after.entryAt row =
      ⟨row.label, details.scope.asStr, details.maxSizeBytes,
        details.maxHeight, addr, row.gossipUrl, key⟩ := by
  simp only [World.entryAt, World.entryOf, World.gossipKey,
    joined.latestApi_new fresh, joined.secrets, if_pos, joined.details,
    Function.update_self]
  rfl

theorem Joined.exported (joined : Joined before row details key addr after)
    (fresh : Fresh before) (active : row.revokedAt = none) :
    after.exported.Perm (⟨row.label, details.scope.asStr,
      details.maxSizeBytes, details.maxHeight, addr, row.gossipUrl, key⟩ ::
        before.exported) := by
  have here : after.activeRows = before.activeRows ++ [row] := by
    rw [World.activeRows, joined.rows, List.filter_append]
    simp [World.activeRows, Peer.isRevoked, active]
  have others : before.activeRows.map after.entryAt =
      before.activeRows.map before.entryAt :=
    List.map_congr_left fun other member =>
      joined.entryAt_old (List.mem_of_mem_filter member)
  have entries := exported_perm after
  rw [here, List.map_append, others, List.map_singleton,
    joined.entryAt_new fresh] at entries
  exact (entries.trans List.perm_append_comm).trans
    ((exported_perm before).symm.cons _)

end Joining

section Entries

variable {crates : Crates} {thread : Nat} {entry : PeerImport}
variable {before world after : World} {own : List Event} {row : PeerRow}
variable {details : Details} {key addr : Option String}

variable {now : Int} {scope : PeerScope} {result : Except String Unit}
  {hasVault : Bool}

theorem joined_created (fresh : Fresh before) {label keyHash : String}
    {peer : Peer} {peers : PeerTable}
    (inserted : before.peers.insert label keyHash now = some (peer, peers)) :
    Joined before ⟨peer, none⟩ ⟨scope, none, none⟩ none none
      ((before.withPeers peers).setDetails peer.id ⟨scope, none, none⟩) := by
  obtain ⟨id, -, -, next, rows⟩ := PeerTable.insert_eq_some inserted
  constructor
  · exact id
  · exact rows
  · exact next
  · rfl
  · intro other
    by_cases new : other = peer.id
    · rw [if_pos new]
      exact fresh.keys other (by omega)
    · rw [if_neg new]
      rfl
  · exact ⟨[], (List.append_nil _).symm, rfl⟩
  · rfl

theorem Joined.setLimits {maxSizeBytes maxHeight : Option Int}
    (joined : Joined before row details key addr world) :
    Joined before row { details with maxSizeBytes, maxHeight } key addr
      (world.setDetails row.id
        { world.details row.id with maxSizeBytes, maxHeight }) where
  id := joined.id
  rows := joined.rows
  next := joined.next
  details := by
    simp [World.setDetails, joined.details]
  secrets := joined.secrets
  endpoints := joined.endpoints
  history := joined.history

theorem Joined.setUrl {url : Option String}
    (joined : Joined before row details key addr world) :
    Joined before { row with gossipUrl := url } details key addr
      (world.setUrl row.id url) where
  id := joined.id
  rows := by
    have new : row.id ∉ before.peers.rows.map (·.id) := by
      intro member
      obtain ⟨other, among, same⟩ := List.mem_map.mp member
      have below := before.peers.below other among
      rw [same, joined.id] at below
      exact Nat.lt_irrefl _ below
    change Keyed.modify (·.id) world.peers.rows row.id _ = _
    rw [joined.rows]
    exact Keyed.modify_append_new new
  next := joined.next
  details := joined.details
  secrets := joined.secrets
  endpoints := joined.endpoints
  history := joined.history

theorem Joined.putKey {value : String}
    (joined : Joined before row details key addr world) :
    Joined before row details (some value) addr
      (world.putKey (peerGossipKey row.id) value) where
  id := joined.id
  rows := joined.rows
  next := joined.next
  details := joined.details
  secrets other := by
    by_cases new : other = row.id
    · subst new
      rw [if_pos rfl]
      exact Gossip.Secrets.get_put_same ..
    · have different : peerGossipKey other ≠ peerGossipKey row.id :=
        fun same => new (Gossip.peerGossipKey_injective same)
      have kept := joined.secrets other
      rw [if_neg new] at kept ⊢
      exact (Gossip.Secrets.get_put_other _ different _).trans kept
  endpoints := joined.endpoints
  history := joined.history

theorem rows_of_first {table : EndpointTable} {history id : Nat}
    {kind : EndpointKind} {text : String} {via : ObservedVia}
    (unseen : ∀ endpoint ∈ table.rows, endpoint.peerId ≠ id) :
    (table.recordPeerEndpoint history now id kind text none via).rows =
      table.rows ++ if 0 < history then
        [⟨table.nextId, id, kind, text, now, via⟩] else [] := by
  have unknown : table.rows.find? (fun row =>
      decide (row.peerId = id ∧ row.kind = kind ∧ row.addr = text)) = none := by
    rw [List.find?_eq_none]
    intro endpoint member
    simp [unseen endpoint member]
  have others : table.rows.filter (fun row =>
      decide (row.peerId = id ∧ row.kind = kind)) = [] := by
    rw [List.filter_eq_nil_iff]
    intro endpoint member
    simp [unseen endpoint member]
  simp only [EndpointTable.recordPeerEndpoint, unknown, EndpointTable.prune,
    List.filter_append, others, List.nil_append, List.filter_cons,
    List.filter_nil]
  cases history with
  | zero =>
    simpa using fun endpoint member => Or.inl (unseen endpoint member)
  | succ history =>
    simpa using fun endpoint member =>
      Or.inl (Or.inl (unseen endpoint member))

/-- The latest step of an entry: the address is kept where any is. -/
theorem Joined.record {text : String}
    (joined : Joined before row details key none world) (fresh : Fresh before) :
    Joined before row details key
      ((some text).filter fun _ => 0 < before.gossip.endpointHistory)
      { world with
        gossip := world.gossip.recordPeerEndpoint now row.id .api text none
          .restored } where
  id := joined.id
  rows := joined.rows
  next := joined.next
  details := joined.details
  secrets := joined.secrets
  endpoints := by
    obtain ⟨seen, rows, told⟩ := joined.endpoints
    rw [Option.map_none, Option.toList_none, List.map_eq_nil_iff] at told
    rw [told, List.append_nil] at rows
    have unseen : ∀ endpoint ∈ world.gossip.endpoints.rows,
        endpoint.peerId ≠ row.id := by
      intro endpoint member
      have below := fresh.endpoints endpoint (rows ▸ member)
      rw [joined.id]
      omega
    refine ⟨_, (rows_of_first unseen).trans (by rw [rows]), ?_⟩
    rw [joined.history]
    by_cases some_ : 0 < before.gossip.endpointHistory
    · simp [some_, Option.filter_some]
    · simp [some_]
  history := joined.history

theorem importLimits_worked
    (joined : Joined before row ⟨scope, none, none⟩ key addr world)
    (ends : Ends perform thread world
      (crates.steps.importLimits row.id entry) own after result)
    (worked : ¬ SomeFailed own) :
    result = .ok () ∧ Joined before row
      ⟨scope, entry.maxSizeBytes, entry.maxHeight⟩ key addr after := by
  rcases importLimits_ends ends with
    broke | ⟨rfl, ⟨noSize, noHeight, rfl⟩ | rfl⟩
  · exact absurd broke.2 worked
  · rw [noSize, noHeight]
    exact ⟨rfl, joined⟩
  · exact ⟨rfl, joined.setLimits⟩

/-- The address is written in its normal form, or refused. -/
theorem importAddress_worked (joined : Joined before row details key addr world)
    (blank : row.gossipUrl = none)
    (ends : Ends perform thread world (whenPresent (present entry.gossipUrl)
      (crates.steps.setPeerGossipUrl row.id)) own after result)
    (worked : ¬ SomeFailed own) :
    (∃ url, landedUrl crates entry = .ok url ∧ result = .ok () ∧
        Joined before { row with gossipUrl := url } details key addr after) ∨
      (∃ reason, landedUrl crates entry = .error reason) ∧
        (∃ reason, result = .error reason) ∧ after = world := by
  rcases importAddress_ends ends with ⟨given, rfl, rfl⟩ |
    ⟨text, given, ⟨reason, normal, gaveUp, rfl⟩ |
      ⟨url, normal, broke | ⟨rfl, rfl⟩⟩⟩
  · refine .inl ⟨none, by rw [landedUrl, given], rfl, ?_⟩
    rw [← blank]
    exact joined
  · refine .inr ⟨⟨reason, ?_⟩, gaveUp, rfl⟩
    rw [landedUrl, given]
    exact normal
  · exact absurd broke.2 worked
  · refine .inl ⟨url, ?_, rfl, joined.setUrl⟩
    rw [landedUrl, given]
    exact normal

theorem importKey_worked (joined : Joined before row details none addr world)
    (opened : present entry.gossipKey ≠ none → hasVault = true)
    (ends : Ends perform thread world (whenPresent (present entry.gossipKey)
      (crates.steps.importGossipKey hasVault row.id)) own after result)
    (worked : ¬ SomeFailed own) :
    result = .ok () ∧
      Joined before row details (present entry.gossipKey) addr after := by
  rcases importKey_ends opened ends with broke | ⟨rfl, rfl⟩
  · exact absurd broke.2 worked
  · cases present entry.gossipKey with
    | none => exact ⟨rfl, joined⟩
    | some key => exact ⟨rfl, joined.putKey⟩

theorem importLastAddr_worked
    (joined : Joined before row details key none world) (fresh : Fresh before)
    (ends : Ends perform thread world (whenPresent (present entry.lastAddr)
      (crates.steps.recordPeerEndpoint row.id)) own after result)
    (worked : ¬ SomeFailed own) :
    result = .ok () ∧ Joined before row details key
      ((present entry.lastAddr).filter
        fun _ => 0 < before.gossip.endpointHistory) after := by
  rcases importLastAddr_ends ends with broke | ⟨rfl, now, rfl⟩
  · exact absurd broke.2 worked
  · cases present entry.lastAddr with
    | none => exact ⟨rfl, joined⟩
    | some addr => exact ⟨rfl, joined.record fresh⟩

theorem importHalves_worked
    (joined : Joined before row ⟨scope, none, none⟩ none none world)
    (fresh : Fresh before) (blank : row.gossipUrl = none)
    (opened : present entry.gossipKey ≠ none → hasVault = true)
    (ends : Ends perform thread world
      (crates.steps.importHalves hasVault row.id entry) own after result)
    (worked : ¬ SomeFailed own) :
    (∃ url, landedUrl crates entry = .ok url ∧
        Joined before { row with gossipUrl := url }
          ⟨scope, entry.maxSizeBytes, entry.maxHeight⟩
          (present entry.gossipKey)
          ((present entry.lastAddr).filter
            fun _ => 0 < before.gossip.endpointHistory) after) ∨
      (∃ reason, landedUrl crates entry = .error reason) ∧
        Joined before row ⟨scope, entry.maxSizeBytes, entry.maxHeight⟩ none
          none after := by
  rcases Ends.attempt_iff.mp ends with
    ⟨reason, rfl, broken⟩ | ⟨first, rest, limited, _, rfl, begun, ends⟩
  · cases (importLimits_worked joined broken worked).1
  obtain ⟨workedFirst, worked⟩ := not_someFailed_append worked
  have limits := (importLimits_worked joined begun workedFirst).2
  rcases Ends.attempt_iff.mp ends with
    ⟨reason, rfl, broken⟩ | ⟨second, rest, addressed, _, rfl, begun, ends⟩
  · rcases importAddress_worked limits blank broken worked with
      ⟨url, -, done, -⟩ | ⟨refused, -, rfl⟩
    · cases done
    · exact .inr ⟨refused, limits⟩
  obtain ⟨workedSecond, worked⟩ := not_someFailed_append worked
  rcases importAddress_worked limits blank begun workedSecond with
    ⟨url, normal, -, address⟩ | ⟨-, ⟨reason, done⟩, -⟩
  · rcases Ends.attempt_iff.mp ends with
      ⟨reason, rfl, broken⟩ | ⟨third, rest, keyed, _, rfl, begun, ends⟩
    · cases (importKey_worked address opened broken worked).1
    obtain ⟨workedThird, worked⟩ := not_someFailed_append worked
    have key := (importKey_worked address opened begun workedThird).2
    exact .inl ⟨url, normal, (importLastAddr_worked key fresh ends worked).2⟩
  · cases done

/-- An entry adds to what is exported what it lands as, and nothing else
changes. -/
theorem importOnePeer_worked (fresh : Fresh world)
    (opened : present entry.gossipKey ≠ none → hasVault = true)
    (ends : Ends perform thread world
      (crates.steps.importOnePeer hasVault entry) own after result)
    (worked : ¬ SomeFailed own) :
    Fresh after ∧
      after.gossip.endpointHistory = world.gossip.endpointHistory ∧
        after.exported.Perm
          ((landed crates world.gossip.endpointHistory entry).toList ++
            world.exported) := by
  rw [importOnePeer_eq] at ends
  obtain ⟨answer, middle, rest, rfl, performed, ends⟩ := Ends.call_iff.mp ends
  cases performed
  obtain ⟨works, workedRest⟩ := not_someFailed_cons worked
  cases answer with
  | error reason => cases works
  | ok random =>
    obtain ⟨first, second, middle, created, rfl, begun, later⟩ :=
      Ends.bind_iff.mp ends
    obtain ⟨workedFirst, workedLater⟩ := not_someFailed_append workedRest
    rcases createPeer_ends begun with
      ⟨message, valid, rfl, rfl, rfl⟩ | ⟨valid, now, rfl, performed⟩
    · obtain ⟨rfl, rfl, rfl⟩ := Ends.done_iff.mp later
      refine ⟨fresh, rfl, ?_⟩
      rw [landed, valid]
      rfl
    rcases perform_createPeer performed with
      ⟨reason, rfl, -⟩ | ⟨peer, peers, rfl, added, rfl⟩
    · cases (not_someFailed_cons (not_someFailed_cons workedFirst).2).1
    obtain ⟨-, -, blank, -⟩ := PeerTable.insert_eq_some added
    have named := PeerTable.label_of_insert added
    have active := PeerTable.revokedAt_of_insert added
    have joined : Joined world ⟨peer, none⟩
        ⟨PeerScope.parse entry.scope, none, none⟩ none none _ :=
      joined_created fresh added
    rcases importHalves_worked joined fresh blank opened later workedLater with
      ⟨url, normal, full⟩ | ⟨⟨reason, refused⟩, partly⟩
    · refine ⟨full.fresh fresh, full.history, ?_⟩
      have entries := full.exported fresh active
      rw [landed, valid, normal, ← named]
      exact entries
    · refine ⟨partly.fresh fresh, partly.history, ?_⟩
      have entries := partly.exported fresh active
      rw [landed, valid, refused, ← named]
      rw [blank] at entries
      exact entries

end Entries

section Blocks

variable {crates : Crates} {thread : Nat} {world after : World}
variable {events : List Event} {entries : List PeerImport}

theorem importEach_worked {hasVault : Bool} (fresh : Fresh world)
    (opened : ∀ entry ∈ entries,
      present entry.gossipKey ≠ none → hasVault = true)
    (ends : Ends perform thread world (crates.steps.importEach hasVault entries)
      events after ())
    (worked : ¬ SomeFailed events) :
    after.exported.Perm
      (entries.filterMap (landed crates world.gossip.endpointHistory) ++
        world.exported) := by
  induction entries generalizing world events with
  | nil =>
    obtain ⟨rfl, rfl, -⟩ := Ends.done_iff.mp ends
    exact .refl _
  | cons head rest ih =>
    obtain ⟨first, second, middle, passed, rfl, one, later⟩ :=
      Ends.bind_iff.mp ends
    obtain ⟨workedFirst, workedSecond⟩ := not_someFailed_append worked
    obtain ⟨own, nothing, settled, result, rfl, begun, finish⟩ :=
      Ends.bind_iff.mp one
    obtain ⟨rfl, rfl, -⟩ := Ends.done_iff.mp finish
    obtain ⟨still, history, added⟩ :=
      importOnePeer_worked fresh (opened head List.mem_cons_self) begun
        (not_someFailed_append workedFirst).1
    have others := ih still
      (fun entry member => opened entry (List.mem_cons_of_mem _ member))
      later workedSecond
    rw [history] at others
    have both := others.trans (added.append_left _)
    rw [← List.append_assoc] at both
    have whole : (head :: rest).filterMap
        (landed crates world.gossip.endpointHistory) =
          (landed crates world.gossip.endpointHistory head).toList ++
            rest.filterMap (landed crates world.gossip.endpointHistory) := by
      rw [List.filterMap_cons]
      cases landed crates world.gossip.endpointHistory head <;> rfl
    rw [whole]
    exact both.trans (List.perm_append_comm.append_right _)

theorem importPeers_worked (fresh : Fresh world)
    (ends : Ends perform thread world (importPeers crates entries) events
      after ())
    (worked : ¬ SomeFailed events) :
    after.exported.Perm
      (entries.filterMap (landed crates world.gossip.endpointHistory) ++
        world.exported) := by
  rcases importPeers_ends ends with
    ⟨rfl, rfl⟩ | ⟨fails, -⟩ | ⟨opening, drained, rfl, -, ends⟩
  · exact .refl _
  · exact absurd fails worked
  · obtain ⟨first, second, middle, passed, rfl, each, rest⟩ :=
      Ends.bind_iff.mp ends
    obtain ⟨answer, stripped, nothing, rfl, performed, finish⟩ :=
      Ends.call_iff.mp rest
    cases performed
    obtain ⟨rfl, rfl, -⟩ := Ends.done_iff.mp finish
    exact importEach_worked fresh
      (fun entry member named => hasVault_of_present member named) each
      (not_someFailed_append (not_someFailed_append worked).2).1

end Blocks

section RoundTrip

variable {crates : Crates} {history : Nat} {entry : PeerImport}

/-- The importer takes every value of the entry as it is. -/
structure Portable (crates : Crates) (history : Nat) (entry : PeerImport) :
    Prop where
  label : validateLabel entry.label = .ok entry.label
  gossipUrl : ∀ url, entry.gossipUrl = some url →
    Gossip.gossipUrl crates.toCrates (some url) = .ok (some url)
  gossipKey : entry.gossipKey ≠ some ""
  lastAddr : ∀ addr, entry.lastAddr = some addr → addr ≠ "" ∧ 0 < history

theorem present_some {text : String} :
    present (some text) = if text = "" then none else some text := by
  by_cases blank : text = ""
  · simp [present, blank]
  · simp [present, blank, Option.filter_some]

theorem present_eq_self_iff {value : Option String} :
    present value = value ↔ value ≠ some "" := by
  cases value with
  | none => simp [present]
  | some text =>
    rw [present_some]
    by_cases blank : text = ""
    · simp [blank]
    · simp [blank]

theorem kept_eq_self_iff {value : Option String} :
    ((present value).filter fun _ => 0 < history) = value ↔
      ∀ addr, value = some addr → addr ≠ "" ∧ 0 < history := by
  cases value with
  | none => simp [present]
  | some text =>
    rw [present_some]
    by_cases blank : text = ""
    · simp [blank]
    · by_cases some_ : 0 < history
      · simp [blank, some_, Option.filter_some]
      · simp [blank, some_]

theorem landedUrl_eq_iff : landedUrl crates entry = .ok entry.gossipUrl ↔
    ∀ url, entry.gossipUrl = some url →
      Gossip.gossipUrl crates.toCrates (some url) = .ok (some url) := by
  unfold landedUrl
  cases given : entry.gossipUrl with
  | none => simp [present]
  | some url =>
    rw [present_some]
    by_cases blank : url = ""
    · have cleared : Gossip.gossipUrl crates.toCrates (some "") = .ok none :=
        rfl
      simp [blank, cleared]
    · simp [blank]

/-- An entry with a scope of its own lands as it is when it is portable, and
only then. -/
theorem landed_eq_some_iff
    (scope : (PeerScope.parse entry.scope).asStr = entry.scope) :
    landed crates history entry = some entry ↔
      Portable crates history entry := by
  unfold landed
  cases valid : validateLabel entry.label with
  | error message =>
    refine iff_of_false nofun fun portable => ?_
    cases valid.symm.trans portable.label
  | ok label =>
    cases normal : landedUrl crates entry with
    | error reason =>
      refine iff_of_false ?_ fun portable => ?_
      · intro same
        have noUrl : none = entry.gossipUrl :=
          congrArg PeerImport.gossipUrl (Option.some.inj same)
        rw [landedUrl, ← noUrl] at normal
        cases normal
      · cases normal.symm.trans (landedUrl_eq_iff.mpr portable.gossipUrl)
    | ok url =>
      constructor
      · intro same
        have same := Option.some.inj same
        have named : label = entry.label := congrArg PeerImport.label same
        have address : url = entry.gossipUrl :=
          congrArg PeerImport.gossipUrl same
        constructor
        · rw [valid, named]
        · exact landedUrl_eq_iff.mp (normal.trans (by rw [address]))
        · exact present_eq_self_iff.mp
            (congrArg PeerImport.gossipKey same)
        · exact kept_eq_self_iff.mp (congrArg PeerImport.lastAddr same)
      · intro portable
        have named : label = entry.label :=
          Except.ok.inj (valid.symm.trans portable.label)
        have address : url = entry.gossipUrl := Except.ok.inj
          (normal.symm.trans (landedUrl_eq_iff.mpr portable.gossipUrl))
        have key := present_eq_self_iff.mpr portable.gossipKey
        have sighting := kept_eq_self_iff.mpr portable.lastAddr
        simp only [named, address, key, sighting, scope]

theorem label_of_landed {found : PeerImport}
    (lands : landed crates history entry = some found) :
    found.label = Rust.trim entry.label := by
  unfold landed at lands
  cases valid : validateLabel entry.label with
  | error message =>
    rw [valid] at lands
    cases lands
  | ok label =>
    rw [valid] at lands
    have trimmed : label = Rust.trim entry.label := by
      simp only [validateLabel] at valid
      split at valid
      · cases valid
      · split at valid
        · cases valid
        · exact (Except.ok.inj valid).symm
    rw [← trimmed]
    cases normal : landedUrl crates entry with
    | error reason =>
      rw [normal] at lands
      rw [← Option.some.inj lands]
    | ok url =>
      rw [normal] at lands
      rw [← Option.some.inj lands]

/-- Items told apart by their labels are, in another order, what a function
makes of them only when it makes each into itself: it settles a label the first
time. -/
theorem filterMap_perm_iff {Item Label : Type} {made : Item → Option Item}
    {label : Item → Label} {items : List Item}
    (distinct : (items.map label).Nodup)
    (settled : ∀ item found again, made item = some found →
      made found = some again → label again = label found) :
    (items.filterMap made).Perm items ↔
      ∀ item ∈ items, made item = some item := by
  constructor
  · intro same item member
    have all := List.filterMap_length_eq_length.mp same.length_eq
    obtain ⟨found, makes⟩ := Option.isSome_iff_exists.mp (all item member)
    have among : found ∈ items :=
      same.subset (List.mem_filterMap.mpr ⟨item, member, makes⟩)
    obtain ⟨again, remakes⟩ := Option.isSome_iff_exists.mp (all found among)
    have apart : items.Pairwise fun one other =>
        ∀ left, made one = some left → ∀ right, made other = some right →
          label left ≠ label right := by
      have labels := (same.map label).nodup_iff.mpr distinct
      exact List.pairwise_filterMap.mp (List.pairwise_map.mp labels)
    have itself : item = found := by
      by_contra different
      have symmetric : Std.Symm fun one other =>
          ∀ left, made one = some left → ∀ right, made other = some right →
            label left ≠ label right := by
        constructor
        intro one other differ left makesLeft right makesRight
        exact (differ right makesRight left makesLeft).symm
      exact apart.forall member among different found makes again remakes
        (settled item found again makes remakes).symm
    rw [makes, itself]
  · intro each
    rw [List.filterMap_congr each, List.filterMap_some]

/-- The friends of one instance are those of the other, in what an export says
of them. -/
structure Restores (old after : World) : Prop where
  each : ∀ peer ∈ old.active,
    ∃! other, other ∈ after.active ∧ after.entryOf other = old.entryOf peer
  noOther : ∀ other ∈ after.active,
    ∃ peer ∈ old.active, after.entryOf other = old.entryOf peer
  again : ∀ thread events left response,
    Ends performExport thread after exportPeers events left response →
      (∀ event ∈ events, exportFailed event.request event.answer = false) →
        ∃ document, response = .download document false ∧
          document.Perm old.exported

theorem labels_of_active (world : World) :
    (world.active.map (·.label)).Nodup := by
  have listed := (exported_perm world).map (·.label)
  have rows : ((world.activeRows.map world.entryAt).map (·.label)).Nodup := by
    rw [List.map_map]
    exact world.peers.labels.sublist (List.filter_sublist.map _)
  have labels := listed.nodup_iff.mpr rows
  rwa [World.exported, List.map_map] at labels

theorem labels_of_exported (world : World) :
    (world.exported.map (·.label)).Nodup := by
  rw [World.exported, List.map_map]
  exact labels_of_active world

theorem restores_iff_perm {old after : World} :
    Restores old after ↔ after.exported.Perm old.exported := by
  constructor
  · intro restores
    apply (List.perm_ext_iff_of_nodup (labels_of_exported after).of_map
      (labels_of_exported old).of_map).mpr
    intro entry
    simp only [World.exported, List.mem_map]
    constructor
    · rintro ⟨other, member, rfl⟩
      obtain ⟨peer, among, same⟩ := restores.noOther other member
      exact ⟨peer, among, same.symm⟩
    · rintro ⟨peer, member, rfl⟩
      obtain ⟨other, ⟨among, same⟩, -⟩ := restores.each peer member
      exact ⟨other, among, same⟩
  · intro same
    constructor
    · intro peer member
      have listed := same.mem_iff.mpr (List.mem_map_of_mem member)
      obtain ⟨other, among, entry⟩ := List.mem_map.mp listed
      refine ⟨other, ⟨among, entry⟩, ?_⟩
      rintro another ⟨alsoAmong, alsoEntry⟩
      have labels : another.label = other.label :=
        congrArg PeerImport.label (alsoEntry.trans entry.symm)
      exact List.inj_on_of_nodup_map (labels_of_active after) alsoAmong among
        labels
    · intro other member
      have listed := same.mem_iff.mp (List.mem_map_of_mem member)
      obtain ⟨peer, among, entry⟩ := List.mem_map.mp listed
      exact ⟨peer, among, entry.symm⟩
    · intro thread events left response ends worked
      exact ⟨_, (exportPeers_ends ends worked).2, same⟩

/-- An instance without a friend, an address or a key. -/
structure Blank (world : World) : Prop where
  peers : world.peers.rows = []
  endpoints : world.gossip.endpoints.rows = []
  secrets : world.secrets = []

theorem Blank.fresh {world : World} (blank : Blank world) : Fresh world where
  endpoints endpoint member := by
    rw [blank.endpoints] at member
    cases member
  keys id _ := by
    rw [blank.secrets]
    rfl

theorem Blank.exported {world : World} (blank : Blank world) :
    world.exported = [] := by
  have listed := exported_perm world
  rw [World.activeRows, blank.peers] at listed
  exact listed.eq_nil

/-- The friends of an export are restored by its import if and only if every
entry is portable. -/
theorem restores_iff_portable {thread : Nat} {old new after : World}
    {events : List Event} (blank : Blank new)
    (ends : Ends perform thread new (importPeers crates old.exported) events
      after ())
    (worked : ¬ SomeFailed events) :
    Restores old after ↔ ∀ peer ∈ old.active,
      Portable crates new.gossip.endpointHistory (old.entryOf peer) := by
  have landing := importPeers_worked blank.fresh ends worked
  rw [blank.exported, List.append_nil] at landing
  rw [restores_iff_perm, landing.congr_left,
    filterMap_perm_iff (labels_of_exported old)]
  · simp only [World.exported, List.forall_mem_map]
    refine forall₂_congr fun peer _ => landed_eq_some_iff ?_
    rw [World.entryOf, PeerScope.parse_asStr]
  · intro item found again lands relands
    rw [label_of_landed relands, label_of_landed lands, Rust.trim_trim]

/-- Importing an export into an instance that has nothing, every call working,
restores the friends if and only if the importer takes every value as it is. -/
theorem export_import_restores (crates : Crates) (exporter importer : Nat)
    {old left new after : World} {exporting : List ExportEvent}
    {document : List PeerImport} {missing : Bool} {importing : List Event}
    (exports : Ends performExport exporter old exportPeers exporting left
      (.download document missing))
    (read : ∀ event ∈ exporting,
      exportFailed event.request event.answer = false)
    (blank : Blank new)
    (imports : Ends perform importer new (importPeers crates document)
      importing after ())
    (worked : ¬ SomeFailed importing) :
    Restores old after ↔ ∀ peer ∈ old.active,
      Portable crates new.gossip.endpointHistory (old.entryOf peer) := by
  have told := (exportPeers_ends exports read).2
  cases told
  exact restores_iff_portable blank imports worked

end RoundTrip

/-- An instance with one friend, seen where its endpoints say. -/
def alone (label url key : String) (sightings : List EndpointRow) :
    World where
  gossip :=
    { peers :=
        { rows := [⟨⟨3, label, 1000, none, none, some url, "their hash"⟩,
            none⟩]
          nextId := 4
          below := by simp
          ids := by simp
          labels := by simp
          keyHashes := by simp }
      endpoints := ⟨sightings, 9⟩
      endpointHistory := 5
      secrets := [("peer.gossip.3", .ok key)] }
  details _ := ⟨.tv, none, some 1080⟩

/-- Alex moved from one address to another. -/
def moved : World :=
  alone "Alex" "http://alex.example/" "alex-key"
    [⟨6, 3, .api, "192.0.2.7:7878", 1500, .direct⟩,
      ⟨7, 3, .tracker, "192.0.2.8:6969", 1800, .gossip⟩,
      ⟨8, 3, .api, "192.0.2.8:7878", 1700, .direct⟩]

def alexMoved : PeerImport :=
  ⟨"Alex", "tv", none, some 1080, some "192.0.2.8:7878",
    some "http://alex.example/", some "alex-key"⟩

/-- The calls of an export that find `world`. -/
def exportCalls (world : World) : List ExportEvent :=
  [⟨0, .openStore, .ok ()⟩, ⟨0, .activePeers, .ok world.active⟩,
    ⟨0, .endpointsOf [3], .ok (world.gossip.endpoints.ofPeers [3])⟩,
    ⟨0, .secretsPresent, .ok ["peer.gossip.3"]⟩,
    ⟨0, .openVault, .ok world.secrets⟩]

/-- The calls of an import that makes Alex, with what else it writes. -/
def importCalls (writes : List Event) : List Event :=
  [⟨1, .openStore, .ok ()⟩, ⟨1, .gossip .openVault, .ok []⟩,
    ⟨1, .randomHex, .ok "our-key"⟩, ⟨1, .gossip .nowEpoch, (1000 : Int)⟩,
    ⟨1, .createPeer "Alex" "hash of our-key" .tv 1000, .ok alex⟩,
    ⟨1, .setPeerLimits 1 none (some 1080), .ok true⟩,
    ⟨1, .gossip (.setPeerGossipUrl 1 (some "http://alex.example/")),
      .ok true⟩] ++ writes ++ [⟨1, .stripPeersBlock, .ok ()⟩]

def keyAndAddress : List Event :=
  [⟨1, .gossip (.vaultPut "peer.gossip.1" "alex-key"), .ok ()⟩,
    ⟨1, .gossip .nowEpoch, (1000 : Int)⟩,
    ⟨1, .gossip (.recordPeerEndpoint 1000 1 .api "192.0.2.8:7878" none
      .restored none), .ok ()⟩]

/-- Alex is exported from one instance and imported into an empty one, and
every call works. -/
structure Travels (old new : World) (entry : PeerImport) (writes : List Event)
    (after : World) : Prop where
  exports : Ends performExport 0 old exportPeers (exportCalls old) old
    (.download [entry] false)
  read : ∀ event ∈ exportCalls old,
    exportFailed event.request event.answer = false
  blank : Blank new
  imports : Ends perform 1 new (importPeers knownCrates [entry])
    (importCalls writes) after ()
  worked : ¬ SomeFailed (importCalls writes)

theorem exportCalls_read (world : World) : ∀ event ∈ exportCalls world,
    exportFailed event.request event.answer = false := by
  simp [exportCalls, exportFailed]

theorem not_someFailed_of_any {events : List Event}
    (noneFails : (events.any fun event =>
      failed event.request event.answer) = false) : ¬ SomeFailed events := by
  rintro ⟨event, member, fails⟩
  rw [List.any_eq_true.mpr ⟨event, member, fails⟩] at noneFails
  cases noneFails

theorem moved_restored : ∃ after,
    Travels moved emptyWorld alexMoved keyAndAddress after ∧
      Restores moved after := by
  have travels : Travels moved emptyWorld alexMoved keyAndAddress _ :=
    { exports := .call rfl (.call rfl (.call rfl (.call rfl (.call rfl
        .done))))
      read := exportCalls_read moved
      blank := ⟨rfl, rfl, rfl⟩
      imports := .call rfl (.call rfl (.call rfl (.call rfl (.call rfl
        (.call rfl (.call rfl (.call rfl (.call rfl (.call rfl (.call rfl
          .done))))))))))
      worked := not_someFailed_of_any rfl }
  refine ⟨_, travels, (export_import_restores knownCrates 0 1 travels.exports
    travels.read travels.blank travels.imports travels.worked).mpr ?_⟩
  intro peer member
  rw [List.mem_singleton.mp member]
  constructor
  · rfl
  · intro url given
    cases given
    rfl
  · nofun
  · intro addr given
    cases given
    exact ⟨by decide, by decide⟩

/-- A friend with blanks around the name, an address as it was typed, an empty
key and an empty sighting. -/
def blanks : World :=
  alone " Alex " "http://alex.example" "" [⟨6, 3, .api, "", 1500, .direct⟩]

def alexBlanks : PeerImport :=
  ⟨" Alex ", "tv", none, some 1080, some "", some "http://alex.example",
    some ""⟩

/-- No sighting is kept. -/
def forgetful : World :=
  { emptyWorld with gossip := { emptyWorld.gossip with endpointHistory := 0 } }

theorem not_restores_of_exported {old after : World}
    {entry other : PeerImport} (before : old.exported = [entry])
    (now : after.exported = [other]) (different : other ≠ entry) :
    ¬ Restores old after := by
  rw [restores_iff_perm, before, now, List.perm_singleton]
  simpa using different

theorem blanks_travel : ∃ after,
    Travels blanks emptyWorld alexBlanks [] after ∧
      after.exported = [⟨"Alex", "tv", none, some 1080, none,
        some "http://alex.example/", none⟩] := by
  have travels : Travels blanks emptyWorld alexBlanks [] _ :=
    { exports := .call rfl (.call rfl (.call rfl (.call rfl (.call rfl
        .done))))
      read := exportCalls_read blanks
      blank := ⟨rfl, rfl, rfl⟩
      imports := .call rfl (.call rfl (.call rfl (.call rfl (.call rfl
        (.call rfl (.call rfl (.call rfl .done)))))))
      worked := not_someFailed_of_any rfl }
  exact ⟨_, travels, rfl⟩

theorem moved_travels_forgotten : ∃ after,
    Travels moved forgetful alexMoved keyAndAddress after ∧
      after.exported = [{ alexMoved with lastAddr := none }] := by
  have travels : Travels moved forgetful alexMoved keyAndAddress _ :=
    { exports := .call rfl (.call rfl (.call rfl (.call rfl (.call rfl
        .done))))
      read := exportCalls_read moved
      blank := ⟨rfl, rfl, rfl⟩
      imports := .call rfl (.call rfl (.call rfl (.call rfl (.call rfl
        (.call rfl (.call rfl (.call rfl (.call rfl (.call rfl (.call rfl
          .done))))))))))
      worked := not_someFailed_of_any rfl }
  exact ⟨_, travels, rfl⟩

/-- Alex does not come back as he was: the name, the address, the key and the
sighting are not what was exported, and where no sighting is kept a good one is
lost, too. -/
theorem blanks_not_restored :
    (∃ after, Travels blanks emptyWorld alexBlanks [] after ∧
      after.exported = [⟨"Alex", "tv", none, some 1080, none,
        some "http://alex.example/", none⟩] ∧ ¬ Restores blanks after) ∧
      ∃ after, Travels moved forgetful alexMoved keyAndAddress after ∧
        after.exported = [{ alexMoved with lastAddr := none }] ∧
          ¬ Restores moved after := by
  constructor
  · obtain ⟨after, travels, now⟩ := blanks_travel
    have before : blanks.exported = [alexBlanks] := rfl
    exact ⟨after, travels, now,
      not_restores_of_exported before now (by decide)⟩
  · obtain ⟨after, travels, now⟩ := moved_travels_forgotten
    have before : moved.exported = [alexMoved] := rfl
    exact ⟨after, travels, now,
      not_restores_of_exported before now (by decide)⟩

end Friends

end Sharerr
