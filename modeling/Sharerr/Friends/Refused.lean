import Sharerr.Friends.Invites
import Sharerr.Friends.Rules

/-!
# What a refused pairing or edit leaves behind

Both handlers write the row before the vault, so a refusal by the vault comes
after the row was written.  A refused request is without a trace exactly when
each of its writes that went through wrote what was there already.
-/

namespace Sharerr

namespace Friends

open Process (Prog Ends)
open Gossip (peerGossipKey)

/-- The peers and the vault are as they were. -/
structure Unchanged (before after : World) : Prop where
  peers : ∀ id, after.peers.row? id = before.peers.row? id
  details : after.details = before.details
  secrets : after.secrets = before.secrets

/-- The address of a friend and the key for them are as they were. -/
structure SameGossip (id : Nat) (before after : World) : Prop where
  address : (after.peers.row? id).map (·.gossipUrl) =
    (before.peers.row? id).map (·.gossipUrl)
  key : after.secrets.get (peerGossipKey id) =
    before.secrets.get (peerGossipKey id)

/-- The call went wrong, or it wrote what was there already. -/
def WroteNothing (before : World) :
    (request : Call) → Answer request → Prop
  | .createPeer _ _ _ _, .ok _ => False
  | .gossip (.bindPeerPubkey id pubkey), .ok true =>
    (before.peers.row? id).map (·.pubkey) = some (some pubkey)
  | .gossip (.setPeerGossipUrl id url), .ok true =>
    (before.peers.row? id).map (·.gossipUrl) = some url
  | _, _ => True

/-- No call wrote anything new. -/
def AllIdle (before : World) (events : List Event) : Prop :=
  ∀ event ∈ events, WroteNothing before event.request event.answer

section Refusals

variable {crates : Crates} {thread : Nat} {world after : World}
variable {own : List Event} {message : String}

theorem Unchanged.refl (world : World) : Unchanged world world :=
  ⟨fun _ => rfl, rfl, rfl⟩

variable {id : Nat} {peer : Peer} {invite : Invite}

theorem wroteNothing_bind {pubkey : String} {answer : Except StoreError Bool}
    (refused : answer ≠ .ok true) :
    WroteNothing world (.gossip (.bindPeerPubkey id pubkey)) answer := by
  rcases answer with _ | _ | _
  · trivial
  · trivial
  · exact absurd rfl refused

theorem allIdle_nil : AllIdle world [] := by
  intro event member
  cases member

theorem allIdle_cons {event : Event} {events : List Event} :
    AllIdle world (event :: events) ↔
      WroteNothing world event.request event.answer ∧
        AllIdle world events :=
  List.forall_mem_cons

theorem AllIdle.one {request : Call} {answer : Answer request}
    (idle : WroteNothing world request answer) :
    AllIdle world [⟨thread, request, answer⟩] :=
  allIdle_cons.mpr ⟨idle, allIdle_nil⟩

theorem allIdle_skip (request : Call) {answer : Answer request}
    {events : List Event} (idle : WroteNothing world request answer) :
    AllIdle world (⟨thread, request, answer⟩ :: events) ↔
      AllIdle world events :=
  allIdle_cons.trans (and_iff_right idle)

theorem allIdle_append {first second : List Event} :
    AllIdle world (first ++ second) ↔
      AllIdle world first ∧ AllIdle world second :=
  List.forall_mem_append

theorem rows_same_iff {row : PeerRow} {write : PeerRow → PeerRow}
    (found : world.peers.row? id = some row)
    (written : ∀ other, after.peers.row? other =
      if other = id then (world.peers.row? other).map write
      else world.peers.row? other) :
    (∀ other, after.peers.row? other = world.peers.row? other) ↔
      write row = row := by
  constructor
  · intro same
    have here := same id
    rw [written, if_pos rfl, found] at here
    exact Option.some.inj here
  · intro same other
    rw [written]
    split
    · rename_i here
      rw [here, found, Option.map_some, same]
    · rfl

/-- How the address and the key of an invite can be refused: before the row
was written, or by the vault. -/
theorem applyOutbound_refused {invite : Gossip.Invite}
    (ends : Ends perform thread world
      (gossip (Gossip.applyOutbound crates.toCrates peer invite)) own after
        (.error message)) :
    (∀ before, AllIdle before own) ∧
        Unchanged world after ∨
      ∃ url reason, own =
          [⟨thread, .gossip (.setPeerGossipUrl peer.id url), .ok true⟩,
            ⟨thread, .gossip (.vaultPut (peerGossipKey peer.id) invite.key),
              .error reason⟩] ∧
        (world.peers.row? peer.id).isSome ∧
          after = world.setUrl peer.id url := by
  unfold gossip Gossip.applyOutbound at ends
  cases normal : Gossip.gossipUrl crates.toCrates (some invite.url) with
  | error reason =>
    rw [normal] at ends
    obtain ⟨rfl, rfl, -⟩ := Ends.done_iff.mp ends
    exact .inl ⟨fun _ => allIdle_nil, .refl _⟩
  | ok url =>
    rw [normal] at ends
    obtain ⟨answer, middle, later, rfl, performed, rest⟩ :=
      Ends.call_iff.mp ends
    rcases perform_setPeerGossipUrl performed with
      ⟨reason, rfl, rfl⟩ | ⟨rfl, rfl⟩
    · obtain ⟨rfl, rfl, -⟩ := Ends.done_iff.mp rest
      exact .inl ⟨fun _ => .one trivial, .refl _⟩
    · cases found : world.peers.row? peer.id with
      | none =>
        rw [found] at rest
        obtain ⟨rfl, rfl, -⟩ := Ends.done_iff.mp rest
        refine .inl ⟨fun _ => .one trivial, ⟨?_, rfl, rfl⟩⟩
        intro id
        rw [world.row?_setUrl]
        split
        · rename_i here
          rw [here, found]
          rfl
        · rfl
      | some row =>
        rw [found] at rest
        obtain ⟨stored, kept, finish, rfl, put, rest⟩ :=
          Ends.call_iff.mp rest
        rcases perform_vaultPut put with ⟨reason, rfl, rfl⟩ | ⟨rfl, rfl⟩
        · obtain ⟨rfl, rfl, -⟩ := Ends.done_iff.mp rest
          exact .inr ⟨url, reason, rfl, rfl, rfl⟩
        · obtain ⟨-, -, finished⟩ := Ends.done_iff.mp rest
          cases finished

theorem row_eta_iff (row : PeerRow) (pubkey url : Option String) :
    ({ row with pubkey := pubkey, gossipUrl := url } : PeerRow) = row ↔
      row.pubkey = pubkey ∧ row.gossipUrl = url := by
  constructor
  · intro same
    exact ⟨(congrArg (fun row : PeerRow => row.pubkey) same).symm,
      (congrArg (fun row : PeerRow => row.gossipUrl) same).symm⟩
  · rintro ⟨rfl, rfl⟩
    rfl

theorem unchanged_iff_row {row : PeerRow} {write : PeerRow → PeerRow}
    (found : world.peers.row? id = some row)
    (written : ∀ other, after.peers.row? other =
      if other = id then (world.peers.row? other).map write
      else world.peers.row? other) (details : after.details = world.details)
    (secrets : after.secrets = world.secrets) :
    Unchanged world after ↔ write row = row := by
  rw [← rows_same_iff found written]
  constructor
  · intro unchanged
    exact unchanged.peers
  · intro same
    exact ⟨same, details, secrets⟩

/-- A refused invite has left no trace exactly when its writes wrote what was
there already. -/
theorem applyInvite_refused {invite : Gossip.Invite}
    (ends : Ends perform thread world
      (gossip (Gossip.applyInvite crates.toCrates peer invite)) own after
        (.error message)) :
    Unchanged world after ↔ AllIdle world own := by
  cases given : invite.pubkey with
  | none =>
    simp only [Gossip.applyInvite, given] at ends
    rcases applyOutbound_refused ends with
      ⟨quiet, unchanged⟩ | ⟨url, reason, rfl, there, rfl⟩
    · exact iff_of_true unchanged (quiet world)
    · obtain ⟨row, found⟩ := Option.isSome_iff_exists.mp there
      rw [unchanged_iff_row found (world.row?_setUrl peer.id · url) rfl rfl]
      apply (row_eta_iff row row.pubkey url).trans
      simp [allIdle_cons, allIdle_nil, WroteNothing, found]
  | some pubkey =>
    simp only [gossip, Gossip.applyInvite, given] at ends
    obtain ⟨answer, middle, later, rfl, performed, rest⟩ :=
      Ends.call_iff.mp ends
    rcases perform_bindPeerPubkey performed with
      ⟨refused, rfl⟩ | ⟨rfl, there, rfl⟩
    · have finish : later = [] ∧ after = middle := by
        rcases answer with reason | _ | _
        · obtain ⟨rfl, rfl, -⟩ := Ends.done_iff.mp rest
          exact ⟨rfl, rfl⟩
        · obtain ⟨rfl, rfl, -⟩ := Ends.done_iff.mp rest
          exact ⟨rfl, rfl⟩
        · exact absurd rfl refused
      obtain ⟨rfl, rfl⟩ := finish
      exact iff_of_true (.refl _) (.one (wroteNothing_bind refused))
    · obtain ⟨row, found⟩ := Option.isSome_iff_exists.mp there
      rcases applyOutbound_refused rest with
        ⟨quiet, unchanged⟩ | ⟨url, reason, rfl, -, rfl⟩
      · rw [unchanged_iff_row found
          (fun other => (unchanged.peers other).trans
            (world.row?_pin peer.id other pubkey))
          unchanged.details unchanged.secrets, allIdle_cons]
        apply (row_eta_iff row (some pubkey) row.gossipUrl).trans
        simp [WroteNothing, found, quiet world]
      · have written : ∀ other,
            ((world.pin peer.id pubkey).setUrl peer.id url).peers.row?
                other =
              if other = peer.id then (world.peers.row? other).map
                ({ · with pubkey := some pubkey, gossipUrl := url })
              else world.peers.row? other := by
          intro other
          rw [World.row?_setUrl, World.row?_pin]
          split
          · rw [Option.map_map]
            rfl
          · rfl
        rw [unchanged_iff_row found written rfl rfl, row_eta_iff]
        simp [allIdle_cons, allIdle_nil, WroteNothing, found]

theorem applied_refused
    (ends : Ends perform thread world (applied crates peer invite) own after
      (.rejected message)) :
    ∃ reason, Ends perform thread world
      (gossip (Gossip.applyInvite crates.toCrates peer invite.toInvite)) own
        after (.error reason) := by
  obtain ⟨first, second, middle, result, rfl, begun, later⟩ :=
    Ends.bind_iff.mp ends
  cases result with
  | error reason =>
    obtain ⟨rfl, rfl, -⟩ := Ends.done_iff.mp later
    rw [List.append_nil]
    exact ⟨reason, begun⟩
  | ok =>
    obtain ⟨-, -, page⟩ := Ends.done_iff.mp later
    cases page

theorem decode_ends {text : String} {result : Except String Invite}
    (ends : Ends perform thread world (decode crates text) own after
      result) :
    after = world ∧ ∀ before, AllIdle before own := by
  unfold decode at ends
  cases read : readInvite crates text with
  | error reason =>
    rw [read] at ends
    obtain ⟨rfl, rfl, -⟩ := Ends.done_iff.mp ends
    exact ⟨rfl, fun _ => allIdle_nil⟩
  | ok invite =>
    rw [read] at ends
    obtain ⟨now, middle, later, rfl, performed, rest⟩ :=
      Ends.call_iff.mp ends
    obtain ⟨rfl, rfl, -⟩ := Ends.done_iff.mp rest
    exact ⟨perform_nowEpoch performed, fun _ => .one trivial⟩

theorem applyReply_refused {hash : String}
    (ends : Ends perform thread world (applyReply crates invite hash) own
      after (.rejected message)) :
    Unchanged world after ↔ AllIdle world own := by
  obtain ⟨answer, middle, later, rfl, performed, rest⟩ :=
    Ends.call_iff.mp ends
  rw [perform_peerByKeyHash performed] at rest
  rw [allIdle_skip (.peerByKeyHash hash) trivial]
  rcases answer with reason | _ | peer
  · obtain ⟨rfl, rfl, -⟩ := Ends.done_iff.mp rest
    exact iff_of_true (.refl _) allIdle_nil
  · obtain ⟨rfl, rfl, -⟩ := Ends.done_iff.mp rest
    exact iff_of_true (.refl _) allIdle_nil
  · obtain ⟨reason, applied⟩ := applied_refused rest
    exact applyInvite_refused applied

theorem changed_of_created {label keyHash : String} {now : Int}
    {peers : PeerTable}
    (inserted : world.peers.insert label keyHash now = some (peer, peers))
    (there : (after.peers.row? peer.id).isSome) : ¬ Unchanged world after := by
  intro unchanged
  obtain ⟨fresh, -⟩ := PeerTable.insert_eq_some inserted
  rw [unchanged.peers, PeerTable.row?_eq_none_of_nextId_le fresh.ge] at there
  cases there

theorem mintPeer_ends {label : String} {scope : PeerScope}
    {result : Except String Peer}
    (ends : Ends perform thread world (mintPeer crates label scope) own after
      result) :
    (∃ reason, result = .error reason) ∧ after = world ∧
        AllIdle world own ∨
      ∃ peer peers keyHash now, result = .ok peer ∧
        world.peers.insert (Rust.trim label) keyHash now =
            some (peer, peers) ∧
          after.peers = peers ∧ ¬ AllIdle world own := by
  obtain ⟨answer, same, rest, rfl, performed, minting⟩ :=
    Ends.call_iff.mp ends
  cases performed
  cases answer with
  | error reason =>
    obtain ⟨rfl, rfl, rfl⟩ := Ends.done_iff.mp minting
    exact .inl ⟨⟨reason, rfl⟩, rfl, .one trivial⟩
  | ok key =>
    obtain ⟨one, nothing, made, created, rfl, creating, finish⟩ :=
      Ends.bind_iff.mp minting
    obtain ⟨rfl, rfl, rfl⟩ := Ends.done_iff.mp finish
    rcases createPeer_ends creating with
      ⟨reason, -, rfl, rfl, rfl⟩ | ⟨-, now, rfl, inserting⟩
    · refine .inl ⟨⟨_, rfl⟩, rfl, ?_⟩
      exact .one trivial
    rcases perform_createPeer inserting with
      ⟨reason, rfl, rfl⟩ | ⟨peer, peers, rfl, inserted, rfl⟩
    · refine .inl ⟨⟨_, rfl⟩, rfl, ?_⟩
      simp [allIdle_cons, allIdle_nil, WroteNothing]
    · refine .inr ⟨peer, peers, _, now, rfl, inserted, rfl, ?_⟩
      simp [allIdle_cons, WroteNothing]

theorem applyFresh_refused {form : PairForm}
    (ends : Ends perform thread world (applyFresh crates form invite) own
      after (.rejected message)) :
    Unchanged world after ↔ AllIdle world own := by
  simp only [applyFresh] at ends
  split at ends
  · obtain ⟨rfl, rfl, -⟩ := Ends.done_iff.mp ends
    exact iff_of_true (.refl _) allIdle_nil
  obtain ⟨first, second, middle, minted, rfl, minting, later⟩ :=
    Ends.bind_iff.mp ends
  rcases mintPeer_ends minting with
    ⟨⟨reason, rfl⟩, rfl, idle⟩ |
      ⟨peer, peers, keyHash, now, rfl, inserted, made, wrote⟩
  · obtain ⟨rfl, rfl, -⟩ := Ends.done_iff.mp later
    refine iff_of_true (.refl _) ?_
    rwa [List.append_nil]
  · obtain ⟨reason, applying⟩ := applied_refused later
    have created : (middle.peers.row? peer.id).isSome := by
      rw [made, (PeerTable.insert_eq_some inserted).1]
      exact Option.isSome_of_eq_some (PeerTable.row?_insert_new inserted)
    have there := stays_of_applyInvite applying created
    refine iff_of_false (changed_of_created inserted there) ?_
    exact fun idle => wrote (allIdle_append.mp idle).1

theorem pair_refused {form : PairForm}
    (ends : Ends perform thread world (pair crates form) own after
      (.rejected message)) :
    Unchanged world after ↔ AllIdle world own := by
  obtain ⟨answer, same, rest, rfl, performed, opened⟩ := Ends.call_iff.mp ends
  cases performed
  rw [allIdle_skip .openStore trivial]
  cases answer with
  | error reason =>
    obtain ⟨-, -, unavailable⟩ := Ends.done_iff.mp opened
    cases unavailable
  | ok =>
    obtain ⟨first, second, middle, read, rfl, decoding, later⟩ :=
      Ends.bind_iff.mp opened
    obtain ⟨rfl, quiet⟩ := decode_ends decoding
    rw [allIdle_append, and_iff_right (quiet _)]
    cases read with
    | error reason =>
      obtain ⟨rfl, rfl, -⟩ := Ends.done_iff.mp later
      exact iff_of_true (.refl _) allIdle_nil
    | ok invite =>
      obtain ⟨answer, same, rest, rfl, performed, vault⟩ :=
        Ends.call_iff.mp later
      rw [perform_openVault performed] at vault
      rw [allIdle_skip (.gossip .openVault) trivial]
      cases answer with
      | error reason =>
        obtain ⟨rfl, rfl, -⟩ := Ends.done_iff.mp vault
        exact iff_of_true (.refl _) allIdle_nil
      | ok secrets =>
        cases answers : invite.inReplyTo with
        | some hash =>
          simp only [answers] at vault
          exact applyReply_refused vault
        | none =>
          simp only [answers] at vault
          exact applyFresh_refused vault

theorem setGossipKey_refused {form : GossipForm}
    (ends : Ends perform thread world (setGossipKey id form) own after
      (.rejected message)) :
    after = world ∧ ∀ before, AllIdle before own := by
  unfold setGossipKey at ends
  split at ends
  · obtain ⟨answer, same, rest, rfl, performed, opened⟩ :=
      Ends.call_iff.mp ends
    rw [perform_openVault performed] at opened
    cases answer with
    | error reason =>
      obtain ⟨rfl, rfl, -⟩ := Ends.done_iff.mp opened
      exact ⟨rfl, fun _ => .one trivial⟩
    | ok secrets =>
      obtain ⟨first, second, middle, stored, rfl, storing, later⟩ :=
        Ends.bind_iff.mp opened
      cases stored with
      | ok =>
        obtain ⟨-, -, redirected⟩ := Ends.done_iff.mp later
        cases redirected
      | error reason =>
        obtain ⟨rfl, rfl, -⟩ := Ends.done_iff.mp later
        unfold storeKey at storing
        split at storing
        · obtain ⟨answer, same, rest, rfl, performed, finish⟩ :=
            Ends.call_iff.mp storing
          obtain ⟨rfl, rfl, failed⟩ := Ends.done_iff.mp finish
          rcases perform_vaultRemove performed with
            ⟨reason, rfl, rfl⟩ | ⟨rfl, rfl⟩
          · refine ⟨rfl, fun _ => ?_⟩
            simp [allIdle_cons, allIdle_nil, WroteNothing]
          · cases failed
        · obtain ⟨answer, same, rest, rfl, performed, finish⟩ :=
            Ends.call_iff.mp storing
          obtain ⟨rfl, rfl, failed⟩ := Ends.done_iff.mp finish
          rcases perform_vaultPut performed with
            ⟨reason, rfl, rfl⟩ | ⟨rfl, rfl⟩
          · refine ⟨rfl, fun _ => ?_⟩
            simp [allIdle_cons, allIdle_nil, WroteNothing]
          · cases failed
  · obtain ⟨-, -, redirected⟩ := Ends.done_iff.mp ends
    cases redirected

theorem setGossip_refused {form : GossipForm}
    (ends : Ends perform thread world (setGossip crates id form) own after
      (.rejected message)) :
    SameGossip id world after ↔ AllIdle world own := by
  obtain ⟨answer, same, rest, rfl, performed, opened⟩ := Ends.call_iff.mp ends
  cases performed
  rw [allIdle_skip .openStore trivial]
  cases answer with
  | error reason =>
    obtain ⟨-, -, unavailable⟩ := Ends.done_iff.mp opened
    cases unavailable
  | ok =>
    obtain ⟨first, second, middle, written, rfl, writing, later⟩ :=
      Ends.bind_iff.mp opened
    rcases setPeerGossipUrl_ends writing with
      ⟨reason, -, rfl, rfl, rfl⟩ | ⟨url, -, rfl, performed⟩
    · obtain ⟨rfl, rfl, -⟩ := Ends.done_iff.mp later
      exact iff_of_true ⟨rfl, rfl⟩ allIdle_nil
    rcases perform_setPeerGossipUrl performed with
      ⟨reason, rfl, rfl⟩ | ⟨rfl, rfl⟩
    · obtain ⟨rfl, rfl, -⟩ := Ends.done_iff.mp later
      exact iff_of_true ⟨rfl, rfl⟩ (.one trivial)
    cases found : world.peers.row? id with
    | none =>
      rw [found] at later
      obtain ⟨rfl, rfl, -⟩ := Ends.done_iff.mp later
      refine iff_of_true ⟨?_, rfl⟩ ?_
      · rw [world.row?_setUrl, if_pos rfl, found]
        rfl
      · simp [allIdle_cons, allIdle_nil, WroteNothing]
    | some row =>
      rw [found] at later
      obtain ⟨rfl, quiet⟩ := setGossipKey_refused later
      have address : ((world.setUrl id url).peers.row? id).map
          (·.gossipUrl) = some url := by
        rw [world.row?_setUrl, if_pos rfl, found]
        rfl
      rw [allIdle_append, and_iff_left (quiet world)]
      constructor
      · intro unchanged
        have kept := unchanged.address
        rw [address] at kept
        simp [allIdle_cons, allIdle_nil, WroteNothing, ← kept]
      · intro idle
        refine ⟨?_, rfl⟩
        rw [address]
        simpa [allIdle_cons, allIdle_nil, WroteNothing, eq_comm] using idle

/-- A refused request of the Friends page leaves no trace exactly when no call
made before the refusal wrote anything new. -/
theorem refused_without_trace_iff (crates : Crates) (thread : Nat)
    (world : World) :
    (∀ form message events after,
        Ends perform thread world (pair crates form) events after
            (.rejected message) →
          (Unchanged world after ↔ AllIdle world events)) ∧
      ∀ id form message events after,
        Ends perform thread world (setGossip crates id form) events after
            (.rejected message) →
          (SameGossip id world after ↔ AllIdle world events) :=
  ⟨fun _ _ _ _ => pair_refused, fun _ _ _ _ _ => setGossip_refused⟩

end Refusals

def alexForm : PairForm := ⟨alexPaste, "Alex", .all⟩

theorem decode_of_read {crates : Crates} {text : String} {invite : Invite}
    (read : readInvite crates text = .ok invite) {thread : Nat} {now : Int}
    (dates : invite.checkDates now = .ok ())
    (facts : invite.checkFacts crates = .ok ()) (world : World) :
    Ends perform thread world (decode crates text)
      [⟨thread, .gossip .nowEpoch, now⟩] world (.ok invite) := by
  unfold decode
  rw [read]
  refine .call rfl (Ends.done_iff.mpr ⟨rfl, rfl, ?_⟩)
  rw [dates, facts]
  rfl

theorem decode_alexPaste (world : World) :
    Ends perform 0 world (decode knownCrates alexPaste)
      [⟨0, .gossip .nowEpoch, (1000 : Int)⟩] world (.ok alexInvite) :=
  decode_of_read readInvite_alexPaste rfl checkFacts_alexInvite world

def addsAlex (added : Except StoreError Peer) : List Event :=
  [⟨0, .randomHex, .ok "our-key"⟩, ⟨0, .gossip .nowEpoch, (1000 : Int)⟩,
    ⟨0, .createPeer "Alex" "hash of our-key" .all 1000, added⟩]

/-- The answers up to the statement that adds Alex. -/
def pastesInvite (added : Except StoreError Peer) : List Event :=
  [⟨0, .openStore, .ok ()⟩, ⟨0, .gossip .nowEpoch, (1000 : Int)⟩,
    ⟨0, .gossip .openVault, .ok []⟩] ++ addsAlex added

theorem pair_alex {middle after : World} {response : Response}
    (added : Except StoreError Peer) (later : List Event)
    (adding : perform 0 emptyWorld
      (.createPeer "Alex" "hash of our-key" .all 1000) added = some middle)
    (rest : Ends perform 0 middle
      (match added.mapError mintFailure with
      | .error reason => .done (.rejected reason)
      | .ok peer => applied knownCrates peer alexInvite) later after
        response) :
    Ends perform 0 emptyWorld (pair knownCrates alexForm)
      (pastesInvite added ++ later) after response := by
  have named : Rust.trim alexForm.label = "Alex" := rfl
  have valid : validateLabel "Alex" = .ok "Alex" := rfl
  have creating : Ends perform 0 emptyWorld
      (createPeer knownCrates "Alex" "our-key" .all)
      [⟨0, .gossip .nowEpoch, (1000 : Int)⟩,
        ⟨0, .createPeer "Alex" "hash of our-key" .all 1000, added⟩] middle
        added := by
    unfold createPeer
    rw [valid]
    exact .call rfl (.call adding .done)
  have minting : Ends perform 0 emptyWorld (mintPeer knownCrates "Alex" .all)
      (addsAlex added) middle (added.mapError mintFailure) :=
    .call rfl (Ends.bind_iff.mpr ⟨_, _, _, _, rfl, creating, .done⟩)
  have fresh : Ends perform 0 emptyWorld
      (applyFresh knownCrates alexForm alexInvite) (addsAlex added ++ later)
      after response := by
    unfold applyFresh
    simp only [named]
    exact Ends.bind_iff.mpr ⟨_, _, _, _, rfl, minting, rest⟩
  exact .call rfl (Ends.bind_iff.mpr
    ⟨_, ⟨0, .gossip .openVault, .ok []⟩ :: (addsAlex added ++ later), _, _,
      rfl, decode_alexPaste _, .call rfl fresh⟩)

theorem pasting_refused : ∃ after,
    Ends perform 0 emptyWorld (pair knownCrates alexForm)
        (pastesInvite (.error (.sql "disk I/O error"))) after
        (.rejected "could not add that friend: database error: disk I/O error")
      ∧ Unchanged emptyWorld after := by
  have ends := pair_alex (.error (.sql "disk I/O error")) [] rfl .done
  rw [List.append_nil] at ends
  refine ⟨_, ends, ?_⟩
  rw [(refused_without_trace_iff knownCrates 0 emptyWorld).1 _ _ _ _ ends]
  simp [pastesInvite, addsAlex, allIdle_cons, allIdle_nil, WroteNothing]

/-- The disk is full by the time the key is stored. -/
def vaultFull : VaultError := .io "vault" "No space left on device"

/-- A pairing refused by the vault leaves a friend of the chosen name, and an
edit refused by the vault leaves the new address. -/
theorem refused_halfway :
    (∃ after message,
      Ends perform 0 emptyWorld (pair knownCrates alexForm)
          (pastesInvite (.ok alex) ++
            [⟨0, .gossip (.setPeerGossipUrl 1 (some "http://alex.example/")),
              .ok true⟩,
            ⟨0, .gossip (.vaultPut "peer.gossip.1" "alex-key"),
              .error vaultFull⟩]) after (.rejected message) ∧
        ¬ Unchanged emptyWorld after ∧ "Alex" ∈ after.labels) ∧
      ∃ after message,
        Ends perform 0 alexWorld
            (setGossip knownCrates 1 ⟨"http://alex.example", "alex-key", false⟩)
            [⟨0, .openStore, .ok ()⟩,
              ⟨0, .gossip (.setPeerGossipUrl 1 (some "http://alex.example/")),
                .ok true⟩,
              ⟨0, .gossip .openVault, .error .noMasterKey⟩] after
              (.rejected message) ∧
          ¬ SameGossip 1 alexWorld after := by
  constructor
  · refine ⟨_, _, pair_alex _ _ rfl (.call rfl (.call rfl .done)), ?_, ?_⟩
    · intro unchanged
      cases unchanged.peers 1
    · exact List.mem_singleton_self _
  · refine ⟨_, _, .call rfl (.call rfl (.call rfl .done)), ?_⟩
    intro same
    cases same.address

end Friends

end Sharerr
