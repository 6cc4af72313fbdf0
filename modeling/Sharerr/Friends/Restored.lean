import Sharerr.Friends.Rules

/-!
# What a drained `[[peers]]` block leaves behind

Once the block is gone an entry is nowhere but in the tables and the vault.
An entry is restored in full, or its name was taken, or the importer skipped
it because it was refused or a call for it failed.
-/

namespace Sharerr

namespace Friends

open Process (Prog Ends)
open Gossip (peerGossipKey)
open Settings (PeerImport ImportSteps present whenPresent
  whenPresent_only)

/-- A friend of the entry's name was there before. -/
def Taken (world : World) (entry : PeerImport) : Prop :=
  Rust.trim entry.label ∈ world.labels

/-- The row holds what the entry says. -/
structure RestoredAs (crates : Crates) (world : World) (entry : PeerImport)
    (row : PeerRow) : Prop where
  found : world.peers.row? row.id = some row
  name : row.label = Rust.trim entry.label
  maxSizeBytes : (world.details row.id).maxSizeBytes = entry.maxSizeBytes
  maxHeight : (world.details row.id).maxHeight = entry.maxHeight
  address : ∀ url, present entry.gossipUrl = some url →
    Gossip.gossipUrl crates.toCrates (some url) = .ok row.gossipUrl
  key : ∀ key, present entry.gossipKey = some key →
    world.secrets.get (peerGossipKey row.id) = .ok (some key)

def Restored (crates : Crates) (world : World) (entry : PeerImport) : Prop :=
  ∃ row, RestoredAs crates world entry row

/-- No friend can be made of the entry: its name or its address is
refused. -/
def Refused (crates : Crates) (entry : PeerImport) : Prop :=
  (∃ message, validateLabel entry.label = .error message) ∨
    ∃ url reason, present entry.gossipUrl = some url ∧
      Gossip.gossipUrl crates.toCrates (some url) = .error reason

/-- The turn of an entry in the importer's way through a block: the calls for
the entries `earlier` led from `world` to `start`, and `own` are the next. -/
structure Turn (crates : Crates) (thread : Nat) (hasVault : Bool)
    (world : World) (events : List Event) (earlier : List PeerImport)
    (entry : PeerImport) (start : World) (own : List Event) (left : World)
    (result : Except String Unit) : Prop where
  reached : ∃ before later, events = before ++ own ++ later ∧
    Ends perform thread world (crates.steps.importEach hasVault earlier)
      before start ()
  ends : Ends perform thread start
    (crates.steps.importOnePeer hasVault entry) own left result

/-- The importer gave the entry up in its turn though its name was free then,
because the entry is refused or one of the calls made for it failed. -/
def Skipped (crates : Crates) (thread : Nat) (world : World)
    (events : List Event) (block earlier : List PeerImport)
    (entry : PeerImport) : Prop :=
  ∃ opening drained start own left reason, events = opening ++ drained ∧
    (∀ event ∈ opening, Opens event.request) ∧
      Turn crates thread (block.any fun peer => peer.gossipKey.isSome) world
          drained earlier entry start own left (.error reason) ∧
        ¬ Taken start entry ∧ (Refused crates entry ∨ SomeFailed own)

/-- All a friend has is as it was. -/
structure SameFriend (id : Nat) (before after : World) : Prop where
  row : after.peers.row? id = before.peers.row? id
  details : after.details id = before.details id
  key : after.secrets.get (peerGossipKey id) =
    before.secrets.get (peerGossipKey id)

theorem SameFriend.refl (id : Nat) (world : World) :
    SameFriend id world world :=
  ⟨rfl, rfl, rfl⟩

variable {first second third : World} {id : Nat}

theorem SameFriend.trans (one : SameFriend id first second)
    (other : SameFriend id second third) :
    SameFriend id first third :=
  ⟨other.row.trans one.row, other.details.trans one.details,
    other.key.trans one.key⟩

/-- The friends that were there before are as they were. -/
structure Grows (before after : World) : Prop where
  next : before.peers.nextId ≤ after.peers.nextId
  friends : ∀ id, id < before.peers.nextId → SameFriend id before after

theorem Grows.refl (world : World) : Grows world world :=
  ⟨Nat.le_refl _, fun id _ => .refl id world⟩

theorem Grows.trans (one : Grows first second) (other : Grows second third) :
    Grows first third where
  next := Nat.le_trans one.next other.next
  friends id old := (one.friends id old).trans
    (other.friends id (Nat.lt_of_lt_of_le old one.next))

theorem Restored.later {crates : Crates} {entry : PeerImport}
    {before after : World} (restored : Restored crates before entry)
    (grows : Grows before after) : Restored crates after entry := by
  obtain ⟨row, holds⟩ := restored
  have same := grows.friends row.id (PeerTable.row?_lt_nextId holds.found)
  refine ⟨row, ?_⟩
  constructor
  · rw [same.row, holds.found]
  · exact holds.name
  · rw [same.details, holds.maxSizeBytes]
  · rw [same.details, holds.maxHeight]
  · exact holds.address
  · intro key named
    rw [same.key, holds.key key named]

/-- Only the friend `id` may have changed. -/
structure Apart (id : Nat) (before after : World) : Prop where
  others : ∀ other, other ≠ id → SameFriend other before after
  labels : after.labels = before.labels
  next : after.peers.nextId = before.peers.nextId

theorem Apart.refl (id : Nat) (world : World) : Apart id world world :=
  ⟨fun other _ => .refl other world, rfl, rfl⟩

theorem Apart.trans (one : Apart id first second)
    (other : Apart id second third) :
    Apart id first third where
  others := fun friend different =>
    (one.others friend different).trans (other.others friend different)
  labels := other.labels.trans one.labels
  next := other.next.trans one.next

theorem apart_setUrl (id : Nat) (world : World) (url : Option String) :
    Apart id world (world.setUrl id url) where
  others other different := by
    refine ⟨?_, rfl, rfl⟩
    rw [world.row?_setUrl, if_neg different]
  labels := world.labels_setUrl id url
  next := rfl

theorem apart_setDetails (id : Nat) (world : World) (details : Details) :
    Apart id world (world.setDetails id details) where
  others _ different :=
    ⟨rfl, Function.update_of_ne different _ _, rfl⟩
  labels := rfl
  next := rfl

theorem apart_putKey (id : Nat) (world : World) (value : String) :
    Apart id world (world.putKey (peerGossipKey id) value) where
  others other different := by
    refine ⟨rfl, rfl, Gossip.Secrets.get_put_other _ ?_ _⟩
    intro same
    exact different (Gossip.peerGossipKey_injective same)
  labels := rfl
  next := rfl

/-- The calls made for the friend `id` once the row is there. -/
def Concerns (id : Nat) : Call → Prop
  | .setPeerLimits target _ _ => target = id
  | .gossip (.setPeerGossipUrl target _) => target = id
  | .gossip (.vaultPut key _) => key = peerGossipKey id
  | .gossip .nowEpoch => True
  | .gossip (.recordPeerEndpoint ..) => True
  | _ => False

theorem apart_of_performed {thread : Nat} {world after : World} {request : Call}
    {answer : Answer request} (concerns : Concerns id request)
    (performed : perform thread world request answer = some after) :
    Apart id world after := by
  unfold Concerns at concerns
  split at concerns
  · subst concerns
    rcases perform_setPeerLimits performed with ⟨-, -, rfl⟩ | ⟨-, rfl⟩
    · exact .refl ..
    · exact apart_setDetails ..
  · subst concerns
    rcases perform_setPeerGossipUrl performed with ⟨-, -, rfl⟩ | ⟨-, rfl⟩
    · exact .refl ..
    · exact apart_setUrl ..
  · subst concerns
    rcases perform_vaultPut performed with ⟨-, -, rfl⟩ | ⟨-, rfl⟩
    · exact .refl ..
    · exact apart_putKey ..
  · rw [perform_nowEpoch performed]
    exact .refl ..
  · obtain ⟨peers, details, secrets⟩ := perform_recordPeerEndpoint performed
    constructor
    · intro other _
      exact ⟨by rw [peers], by rw [details], by rw [secrets]⟩
    · rw [World.labels, peers, World.labels]
    · rw [peers]
  · cases concerns

theorem importHalves_only (crates : Crates) (hasVault : Bool) (id : Nat)
    (entry : PeerImport) :
    (crates.steps.importHalves hasVault id entry).Only (Concerns id) := by
  apply Prog.Only.attempt
  · unfold ImportSteps.importLimits
    split
    · exact ⟨rfl, fun _ => trivial⟩
    · trivial
  · intro _
    apply Prog.Only.attempt
    · apply whenPresent_only
      intro url
      refine Prog.Only.bind ?_ fun _ => trivial
      unfold setPeerGossipUrl
      split
      · trivial
      · exact ⟨rfl, fun _ => trivial⟩
    · intro _
      apply Prog.Only.attempt
      · apply whenPresent_only
        intro key
        unfold ImportSteps.importGossipKey
        split
        · exact ⟨rfl, fun _ => trivial⟩
        · trivial
      · intro _
        apply whenPresent_only
        intro addr
        exact ⟨trivial, fun _ => ⟨trivial, fun _ => trivial⟩⟩

/-- The entry was given up because it is refused, or because a call failed. -/
def GaveUp (crates : Crates) (entry : PeerImport) (own : List Event)
    (result : Except String Unit) : Prop :=
  (∃ reason, result = .error reason) ∧
    (Refused crates entry ∨ SomeFailed own)

/-- Run from `world` the step leaves the friend as `post` says, or it gives the
entry up. -/
def Settles (crates : Crates) (thread : Nat) (entry : PeerImport)
    (world : World) (step : Program (Except String Unit))
    (post : World → Prop) : Prop :=
  ∀ own after result, Ends perform thread world step own after result →
    GaveUp crates entry own result ∨ result = .ok () ∧ post after

section Steps

variable {crates : Crates} {thread : Nat} {entry : PeerImport}
variable {world : World} {own : List Event} {id : Nat}

theorem GaveUp.mono {few : List Event} {result : Except String Unit}
    (gaveUp : GaveUp crates entry few result) (among : few ⊆ own) :
    GaveUp crates entry own result :=
  ⟨gaveUp.1, gaveUp.2.imp (fun refused => refused) fun failing =>
    failing.mono among⟩

theorem GaveUp.of_broke {result : Except String Unit}
    (broke : Broke own result) : GaveUp crates entry own result :=
  ⟨broke.1, .inr broke.2⟩

/-- One step after the other. -/
theorem Settles.attempt {step : Program (Except String Unit)}
    {rest : Unit → Program (Except String Unit)} {middle post : World → Prop}
    (first : Settles crates thread entry world step middle)
    (second : ∀ between, middle between →
      Settles crates thread entry between (rest ()) post) :
    Settles crates thread entry world (step.attempt rest) post := by
  intro own after result ends
  rcases Ends.attempt_iff.mp ends with
    ⟨reason, rfl, broken⟩ | ⟨one, more, between, value, rfl, begun, later⟩
  · rcases first _ _ _ broken with ⟨-, why⟩ | ⟨done, -⟩
    · exact .inl ⟨⟨reason, rfl⟩, why⟩
    · cases done
  · rcases first _ _ _ begun with ⟨⟨reason, done⟩, -⟩ | ⟨-, holds⟩
    · cases done
    · exact (second between holds _ _ _ later).imp_left fun gaveUp =>
        gaveUp.mono (List.subset_append_right _ _)

theorem importLimits_settles :
    Settles crates thread entry world
      (crates.steps.importLimits id entry) fun after =>
        after.gossip = world.gossip ∧
        ((world.details id).maxSizeBytes = none →
          (world.details id).maxHeight = none →
            (after.details id).maxSizeBytes = entry.maxSizeBytes ∧
              (after.details id).maxHeight = entry.maxHeight) := by
  intro own after result ends
  rcases importLimits_ends ends with
    broke | ⟨rfl, ⟨noSize, noHeight, rfl⟩ | rfl⟩
  · exact .inl (.of_broke broke)
  · exact .inr ⟨rfl, rfl, fun size height =>
      ⟨size.trans noSize.symm, height.trans noHeight.symm⟩⟩
  · right
    refine ⟨rfl, rfl, fun _ _ => ?_⟩
    simp [World.setDetails]

theorem importAddress_settles {row : PeerRow}
    (found : world.peers.row? id = some row) :
    Settles crates thread entry world
      (whenPresent (present entry.gossipUrl) (crates.steps.setPeerGossipUrl id))
        fun after => after.details = world.details ∧
          ∃ url, after.peers.row? id = some { row with gossipUrl := url } ∧
            ∀ text, present entry.gossipUrl = some text →
              Gossip.gossipUrl crates.toCrates (some text) = .ok url := by
  intro own after result ends
  rcases importAddress_ends ends with ⟨blank, rfl, rfl⟩ |
    ⟨text, given, ⟨reason, normal, gaveUp, -⟩ |
      ⟨url, normal, broke | ⟨rfl, rfl⟩⟩⟩
  · refine .inr ⟨rfl, rfl, row.gossipUrl, found, fun text given => ?_⟩
    rw [blank] at given
    cases given
  · exact .inl ⟨gaveUp, .inl (.inr ⟨text, reason, given, normal⟩)⟩
  · exact .inl (.of_broke broke)
  · right
    refine ⟨rfl, rfl, url, ?_, ?_⟩
    · rw [world.row?_setUrl, if_pos rfl, found]
      rfl
    · intro other same
      rw [given] at same
      cases same
      exact normal

theorem importKey_settles {hasVault : Bool}
    (opened : present entry.gossipKey ≠ none → hasVault = true) :
    Settles crates thread entry world
      (whenPresent (present entry.gossipKey)
        (crates.steps.importGossipKey hasVault id))
        fun after => after.peers = world.peers ∧
          after.details = world.details ∧
            ∀ key, present entry.gossipKey = some key →
              after.secrets.get (peerGossipKey id) = .ok (some key) := by
  intro own after result ends
  rcases importKey_ends opened ends with broke | ⟨rfl, rfl⟩
  · exact .inl (.of_broke broke)
  · right
    cases present entry.gossipKey with
    | none => exact ⟨rfl, rfl, rfl, nofun⟩
    | some key =>
      refine ⟨rfl, rfl, rfl, ?_⟩
      intro other same
      cases same
      exact Gossip.Secrets.get_put_same ..

theorem importLastAddr_settles :
    Settles crates thread entry world
      (whenPresent (present entry.lastAddr)
        (crates.steps.recordPeerEndpoint id))
        fun after => after.peers = world.peers ∧
          after.details = world.details ∧ after.secrets = world.secrets := by
  intro own after result ends
  rcases importLastAddr_ends ends with broke | ⟨rfl, now, rfl⟩
  · exact .inl (.of_broke broke)
  · cases present entry.lastAddr <;> exact .inr ⟨rfl, rfl, rfl, rfl⟩

/-- From a row that is there and has no limits yet, the rest of an entry is
applied in full or given up. -/
theorem importHalves_settles {hasVault : Bool} (row : PeerRow)
    (found : world.peers.row? row.id = some row)
    (name : row.label = Rust.trim entry.label)
    (noSize : (world.details row.id).maxSizeBytes = none)
    (noHeight : (world.details row.id).maxHeight = none)
    (opened : present entry.gossipKey ≠ none → hasVault = true) :
    Settles crates thread entry world
      (crates.steps.importHalves hasVault row.id entry) fun after =>
        Restored crates after entry := by
  apply importLimits_settles.attempt
  rintro limited ⟨gossip, limits⟩
  obtain ⟨size, height⟩ := limits noSize noHeight
  have there : limited.peers.row? row.id = some row := by
    rw [World.peers, gossip]
    exact found
  apply (importAddress_settles there).attempt
  rintro addressed ⟨details, url, written, normal⟩
  apply (importKey_settles opened).attempt
  rintro keyed ⟨peers, sameDetails, key⟩ own after result ends
  refine (importLastAddr_settles _ _ _ ends).imp_right ?_
  rintro ⟨done, samePeers, lastDetails, secrets⟩
  refine ⟨done, { row with gossipUrl := url }, ?_⟩
  constructor
  · rw [samePeers, peers]
    exact written
  · exact name
  · rw [lastDetails, sameDetails, details]
    exact size
  · rw [lastDetails, sameDetails, details]
    exact height
  · exact normal
  · intro text given
    rw [secrets]
    exact key text given

end Steps

section Entries

variable {crates : Crates} {thread : Nat} {entry : PeerImport}
variable {world after : World} {own : List Event}

/-- What the run of one entry does to the tables. -/
structure Moves (entry : PeerImport) (before after : World) : Prop where
  grows : Grows before after
  labels : ∀ label ∈ after.labels,
    label ∈ before.labels ∨ label = Rust.trim entry.label

theorem Moves.refl (entry : PeerImport) (world : World) :
    Moves entry world world :=
  ⟨.refl world, fun _ member => .inl member⟩

theorem Moves.apart {id : Nat} {middle : World}
    (moves : Moves entry world middle) (fresh : world.peers.nextId ≤ id)
    (apart : Apart id middle after) : Moves entry world after where
  grows :=
    { next := apart.next ▸ moves.grows.next
      friends := fun other old => (moves.grows.friends other old).trans
        (apart.others other (by omega)) }
  labels := by
    rw [apart.labels]
    exact moves.labels

/-- An inserted row is new, and has no limits. -/
theorem moves_created {keyHash : String} {scope : PeerScope} {now : Int}
    {peer : Peer} {peers : PeerTable}
    (inserted : world.peers.insert (Rust.trim entry.label) keyHash now =
      some (peer, peers)) :
    Moves entry world
      ((world.withPeers peers).setDetails peer.id ⟨scope, none, none⟩) := by
  obtain ⟨fresh, -, -, next, rows⟩ := PeerTable.insert_eq_some inserted
  constructor
  · constructor
    · exact Nat.le_trans (Nat.le_succ _) next.ge
    · intro id old
      constructor
      · exact PeerTable.row?_insert_old inserted old
      · exact Function.update_of_ne (by omega) _ _
      · rfl
  · intro label member
    rw [World.labels] at member
    change label ∈ peers.rows.map (·.label) at member
    rw [rows, List.map_append, List.mem_append] at member
    refine member.imp (fun old => old) fun new => ?_
    rw [List.mem_singleton.mp new]
    exact PeerTable.label_of_insert inserted

theorem importOnePeer_ends {hasVault : Bool} {result : Except String Unit}
    (opened : present entry.gossipKey ≠ none → hasVault = true)
    (ends : Ends perform thread world
      (crates.steps.importOnePeer hasVault entry) own after result) :
    Moves entry world after ∧
      (GaveUp crates entry own result ∨
        result = .ok () ∧ Restored crates after entry) := by
  rw [importOnePeer_eq] at ends
  obtain ⟨answer, middle, rest, rfl, performed, ends⟩ := Ends.call_iff.mp ends
  cases performed
  cases answer with
  | error reason =>
    obtain ⟨rfl, rfl, rfl⟩ := Ends.done_iff.mp ends
    exact ⟨.refl .., .inl (.of_broke (broke_last [] rfl))⟩
  | ok key =>
    obtain ⟨first, second, middle, created, rfl, begun, later⟩ :=
      Ends.bind_iff.mp ends
    rcases createPeer_ends begun with
      ⟨message, invalid, rfl, rfl, rfl⟩ | ⟨-, now, rfl, inserting⟩
    · obtain ⟨rfl, rfl, rfl⟩ := Ends.done_iff.mp later
      exact ⟨.refl .., .inl ⟨⟨_, rfl⟩, .inl (.inl ⟨message, invalid⟩)⟩⟩
    rcases perform_createPeer inserting with
      ⟨reason, rfl, rfl⟩ | ⟨peer, peers, rfl, inserted, rfl⟩
    · obtain ⟨rfl, rfl, rfl⟩ := Ends.done_iff.mp later
      have gaveUp : GaveUp crates entry
          [⟨thread, .createPeer (Rust.trim entry.label)
            (crates.hashKey key) (PeerScope.parse entry.scope) now,
            .error reason⟩] (.error reason.text) :=
        .of_broke (broke_last [] rfl)
      exact ⟨.refl .., .inl (gaveUp.mono (by simp))⟩
    · have apart : Apart peer.id _ after :=
        later.keeps (importHalves_only crates hasVault peer.id entry)
          (Apart peer.id _)
          (fun _ _ _ _ concerns performed apart =>
            apart.trans (apart_of_performed concerns performed))
          (.refl ..)
      obtain ⟨fresh, -⟩ := PeerTable.insert_eq_some inserted
      refine ⟨(moves_created inserted).apart fresh.ge apart, ?_⟩
      have settled := importHalves_settles ⟨peer, none⟩
        (by
          have new := PeerTable.row?_insert_new inserted
          rw [← fresh] at new
          exact new)
        (PeerTable.label_of_insert inserted)
        (by simp [World.setDetails]) (by simp [World.setDetails]) opened
        _ _ _ later
      exact settled.imp_left fun gaveUp =>
        gaveUp.mono fun event member => by simp [member]

end Entries

section Blocks

variable {crates : Crates} {thread : Nat} {world after : World}
variable {events : List Event} {entries : List PeerImport}

/-- What became of an entry that comes after the entries `earlier`. -/
def Accounted (crates : Crates) (thread : Nat) (before after : World)
    (events : List Event) (block earlier : List PeerImport)
    (entry : PeerImport) : Prop :=
  Taken before entry ∨
    (∃ other ∈ earlier, Rust.trim other.label = Rust.trim entry.label) ∨
      Skipped crates thread before events block earlier entry ∨
        Restored crates after entry

variable {earlier later : List PeerImport} {entry : PeerImport}
variable {hasVault : Bool}

theorem importEach_moves
    (opened : ∀ entry ∈ entries,
      present entry.gossipKey ≠ none → hasVault = true)
    (ends : Ends perform thread world (crates.steps.importEach hasVault entries)
      events after ()) :
    Grows world after ∧ ∀ label ∈ after.labels, label ∈ world.labels ∨
      ∃ entry ∈ entries, Rust.trim entry.label = label := by
  induction entries generalizing world events with
  | nil =>
    obtain ⟨rfl, rfl, -⟩ := Ends.done_iff.mp ends
    exact ⟨.refl _, fun label member => .inl member⟩
  | cons head rest ih =>
    obtain ⟨first, second, middle, passed, rfl, one, others⟩ :=
      Ends.bind_iff.mp ends
    obtain ⟨own, nothing, settled, result, rfl, begun, finish⟩ :=
      Ends.bind_iff.mp one
    obtain ⟨rfl, rfl, -⟩ := Ends.done_iff.mp finish
    have moves := (importOnePeer_ends (opened head List.mem_cons_self)
      begun).1
    obtain ⟨grows, labels⟩ := ih
      (fun entry member => opened entry (List.mem_cons_of_mem _ member))
      others
    refine ⟨moves.grows.trans grows, ?_⟩
    intro label member
    rcases labels label member with between | ⟨entry, among, same⟩
    · refine (moves.labels label between).imp_right fun same => ?_
      exact ⟨head, List.mem_cons_self, same.symm⟩
    · exact .inr ⟨entry, List.mem_cons_of_mem _ among, same⟩

/-- Every entry of a block has its turn. -/
theorem importEach_turn
    (ends : Ends perform thread world
      (crates.steps.importEach hasVault (earlier ++ entry :: later)) events
        after ()) :
    ∃ start own left result rest,
      Turn crates thread hasVault world events earlier entry start own left
          result ∧
        Ends perform thread left (crates.steps.importEach hasVault later) rest
          after () := by
  obtain ⟨before, second, start, passed, rfl, begun, ends⟩ :=
    Ends.fold_append_iff.mp ends
  obtain ⟨one, rest, middle, next, rfl, turn, others⟩ := Ends.bind_iff.mp ends
  obtain ⟨own, nothing, left, result, rfl, taken, finish⟩ :=
    Ends.bind_iff.mp turn
  obtain ⟨rfl, rfl, -⟩ := Ends.done_iff.mp finish
  refine ⟨start, own, _, result, rest, ⟨⟨before, rest, ?_, begun⟩, taken⟩,
    others⟩
  rw [List.append_nil, List.append_assoc]

theorem drainPeers_ends (block : List PeerImport) (opening : List Event)
    (opens : ∀ event ∈ opening, Opens event.request)
    (ends : Ends perform thread world (crates.steps.drainPeers
      (block.any fun peer => peer.gossipKey.isSome) block) events after ())
    (whole : block = earlier ++ entry :: later) :
    Accounted crates thread world after (opening ++ events) block earlier
      entry := by
  obtain ⟨each, finished, middle, passed, rfl, drained, rest⟩ :=
    Ends.bind_iff.mp ends
  obtain ⟨answer, stripped, nothing, rfl, performed, finish⟩ :=
    Ends.call_iff.mp rest
  cases performed
  obtain ⟨rfl, rfl, -⟩ := Ends.done_iff.mp finish
  by_cases taken : Taken world entry
  · exact .inl taken
  by_cases repeated :
      ∃ other ∈ earlier, Rust.trim other.label = Rust.trim entry.label
  · exact .inr (.inl repeated)
  generalize vault : (block.any fun peer => peer.gossipKey.isSome) = hasVault
    at drained
  have opened : ∀ entry ∈ block, present entry.gossipKey ≠ none →
      hasVault = true :=
    fun entry member named => vault ▸ hasVault_of_present member named
  subst whole
  obtain ⟨start, own, left, result, remaining, turn, others⟩ :=
    importEach_turn drained
  obtain ⟨before, following, rfl, reached⟩ := turn.reached
  -- Only the names of earlier entries came up since the start.
  have free : ¬ Taken start entry := by
    intro there
    have labels := (importEach_moves
      (fun other member => opened other (List.mem_append_left _ member))
      reached).2 _ there
    exact labels.elim taken repeated
  rcases (importOnePeer_ends (opened entry (by simp)) turn.ends).2 with
    ⟨⟨reason, rfl⟩, why⟩ | ⟨-, restored⟩
  · refine .inr (.inr (.inl ⟨opening, _, start, own, left, reason, rfl, opens,
      ?_, free, why⟩))
    rw [vault]
    exact ⟨⟨before, _, List.append_assoc .., reached⟩, turn.ends⟩
  · exact .inr (.inr (.inr (restored.later (importEach_moves
      (fun other member => opened other (by simp [member])) others).1)))

/-- Whatever call fails: once the importer has removed the block, each entry's
name was taken before, by a friend or by an earlier entry, or the importer
skipped the entry in its turn because it was refused or a call for it failed,
or a friend has all that the entry says. -/
theorem block_accounted_for
    (ends : Ends perform thread world (importPeers crates entries) events
      after ())
    (removed : ⟨thread, .stripPeersBlock, .ok ()⟩ ∈ events)
    {earlier later : List PeerImport} {entry : PeerImport}
    (whole : entries = earlier ++ entry :: later) :
    Accounted crates thread world after events entries earlier entry := by
  rcases importPeers_ends ends with
    ⟨rfl, -⟩ | ⟨-, before⟩ | ⟨opening, drained, rfl, opens, ends⟩
  · simp at whole
  · exact (before _ removed).elim
  · exact drainPeers_ends entries opening opens ends whole

end Blocks

/-- The importer at work on Alex's entry, up to the write of the key. -/
def importsAlex (stored : Except VaultError Unit) : List Event :=
  [⟨0, .openStore, .ok ()⟩, ⟨0, .gossip .openVault, .ok []⟩,
    ⟨0, .randomHex, .ok "our-key"⟩, ⟨0, .gossip .nowEpoch, (1000 : Int)⟩,
    ⟨0, .createPeer "Alex" "hash of our-key" .tv 1000, .ok alex⟩,
    ⟨0, .gossip (.setPeerGossipUrl 1 (some "http://alex.example/")),
      .ok true⟩,
    ⟨0, .gossip (.vaultPut "peer.gossip.1" "alex-key"), stored⟩,
    ⟨0, .stripPeersBlock, .ok ()⟩]

theorem alex_accounted_for : ∃ after,
    Ends perform 0 emptyWorld (importPeers knownCrates [alexEntry])
        (importsAlex (.ok ())) after () ∧
      Accounted knownCrates 0 emptyWorld after (importsAlex (.ok ()))
        [alexEntry] [] alexEntry := by
  have ends : Ends perform 0 emptyWorld (importPeers knownCrates [alexEntry])
      (importsAlex (.ok ())) _ () :=
    .call rfl (.call rfl (.call rfl (.call rfl (.call rfl (.call rfl
      (.call rfl (.call rfl .done)))))))
  have removed : ⟨0, .stripPeersBlock, .ok ()⟩ ∈ importsAlex (.ok ()) := by
    simp [importsAlex]
  have whole : [alexEntry] = [] ++ alexEntry :: [] := rfl
  exact ⟨_, ends, block_accounted_for ends removed whole⟩

/-- The key does not fit on the disk: the block is removed all the same, and
Alex's row stays without the key. -/
theorem key_lost_with_block :
    let full := VaultError.io "vault" "No space left on device"
    ∃ after,
      Ends perform 0 emptyWorld (importPeers knownCrates [alexEntry])
          (importsAlex (.error full)) after () ∧
        ⟨0, .stripPeersBlock, .ok ()⟩ ∈ importsAlex (.error full) ∧
          ¬ Taken emptyWorld alexEntry ∧
            ¬ Restored knownCrates after alexEntry := by
  intro full
  refine ⟨_, .call rfl (.call rfl (.call rfl (.call rfl (.call rfl (.call rfl
    (.call rfl (.call rfl .done))))))), ?_, ?_, ?_⟩
  · simp [importsAlex]
  · simp [Taken, World.labels, World.peers, emptyWorld, Gossip.World.empty,
      PeerTable.empty]
  · rintro ⟨row, restored⟩
    have stored := restored.key "alex-key" rfl
    cases stored

end Friends

end Sharerr
