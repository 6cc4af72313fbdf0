import Sharerr.Friends.Handlers
import Sharerr.Gossip.Rules
import Sharerr.Process.Endings

/-!
# What the calls of the Friends page do

One lemma for each call, and for the programs that wrap a call in its checks.
-/

namespace Sharerr

/-- Whether a call of the gossip code was answered with an error. -/
def Gossip.failed : (request : Gossip.Call) → Gossip.Answer request → Bool
  | .listPeers, .error _ => true
  | .activePeers, .error _ => true
  | .peer _, .error _ => true
  | .peerGossipRecords _, .error _ => true
  | .bindPeerPubkey _ _, .error _ => true
  | .recordPeerEndpoint .., .error _ => true
  | .setPeerGossipRecord _ _, .error _ => true
  | .setPeerGossipUrl _ _, .error _ => true
  | .createPeer _ _ _, .error _ => true
  | .revokePeer _ _, .error _ => true
  | .deletePeer _, .error _ => true
  | .openVault, .error _ => true
  | .vaultPut _ _, .error _ => true
  | .lighthouseLookup _ _, .error _ => true
  | _, _ => false

namespace Friends

open Process (Prog Ends)
open Gossip (peerGossipKey)

/-- Whether a call was answered with an error. -/
def failed : (request : Call) → Answer request → Bool
  | .gossip wanted, answer => Gossip.failed wanted answer
  | .openStore, .error _ => true
  | .randomHex, .error _ => true
  | .createPeer _ _ _ _, .error _ => true
  | .setPeerLimits _ _ _, .error _ => true
  | .peerByKeyHash _, .error _ => true
  | .vaultRemove _, .error _ => true
  | .stripPeersBlock, .error _ => true
  | _, _ => false

/-- Some call was answered with an error. -/
def SomeFailed (events : List Event) : Prop :=
  ∃ event ∈ events, failed event.request event.answer = true

theorem SomeFailed.mono {few events : List Event} (failing : SomeFailed few)
    (among : few ⊆ events) : SomeFailed events := by
  obtain ⟨event, member, fails⟩ := failing
  exact ⟨event, among member, fails⟩

namespace World

def setUrl (world : World) (id : Nat) (url : Option String) : World :=
  { world with gossip := world.gossip.setPeerGossipUrl id url }

def pin (world : World) (id : Nat) (pubkey : String) : World :=
  { world with gossip := world.gossip.bindPeerPubkey id pubkey }

def putKey (world : World) (key value : String) : World :=
  world.withSecrets (world.secrets.put key value)

theorem row?_setUrl (world : World) (id other : Nat) (url : Option String) :
    (world.setUrl id url).peers.row? other =
      if other = id then
        (world.peers.row? other).map ({ · with gossipUrl := url })
      else world.peers.row? other := by
  simp only [peers, setUrl, Gossip.World.setPeerGossipUrl,
    PeerTable.row?_update]

theorem row?_pin (world : World) (id other : Nat) (pubkey : String) :
    (world.pin id pubkey).peers.row? other =
      if other = id then
        (world.peers.row? other).map ({ · with pubkey := some pubkey })
      else world.peers.row? other := by
  simp only [peers, pin, Gossip.World.bindPeerPubkey, PeerTable.row?_update]

theorem labels_setUrl (world : World) (id : Nat) (url : Option String) :
    (world.setUrl id url).labels = world.labels :=
  Keyed.map_modify fun _ => rfl

end World

variable {thread : Nat} {world after : World} {id : Nat}

theorem perform_gossip {wanted : Gossip.Call} {answer : Gossip.Answer wanted}
    (performed : perform thread world (.gossip wanted) answer = some after) :
    ∃ next, Gossip.perform thread world.gossip wanted answer = some next ∧
      after = { world with gossip := next } := by
  obtain ⟨next, inner, rfl⟩ := Option.map_eq_some_iff.mp performed
  exact ⟨next, inner, rfl⟩

theorem perform_nowEpoch {answer : Int}
    (performed : perform thread world (.gossip .nowEpoch) answer =
      some after) : after = world := by
  obtain ⟨next, inner, rfl⟩ := perform_gossip performed
  cases inner
  rfl

theorem perform_openVault {answer : Except VaultError Gossip.Secrets}
    (performed : perform thread world (.gossip .openVault) answer =
      some after) : after = world := by
  obtain ⟨next, inner, rfl⟩ := perform_gossip performed
  cases answer with
  | error => cases inner; rfl
  | ok => obtain ⟨-, rfl⟩ := Gossip.of_guarded inner; rfl

variable {answer : Except StoreError Bool} {key : String} {crates : Crates}
  {own : List Event}

theorem perform_setPeerGossipUrl {url : Option String}
    (performed : perform thread world (.gossip (.setPeerGossipUrl id url))
      answer = some after) :
    (∃ reason, answer = .error reason ∧ after = world) ∨
      answer = .ok (world.peers.row? id).isSome ∧
        after = world.setUrl id url := by
  obtain ⟨next, inner, rfl⟩ := perform_gossip performed
  cases answer with
  | error reason =>
    cases inner
    exact .inl ⟨reason, rfl, rfl⟩
  | ok changed =>
    obtain ⟨rfl, rfl⟩ := Gossip.of_guarded inner
    exact .inr ⟨rfl, rfl⟩

theorem perform_vaultPut {value : String} {answer : Except VaultError Unit}
    (performed : perform thread world (.gossip (.vaultPut key value)) answer =
      some after) :
    (∃ reason, answer = .error reason ∧ after = world) ∨
      answer = .ok () ∧ after = world.putKey key value := by
  obtain ⟨next, inner, rfl⟩ := perform_gossip performed
  cases answer with
  | error reason =>
    cases inner
    exact .inl ⟨reason, rfl, rfl⟩
  | ok =>
    cases inner
    exact .inr ⟨rfl, rfl⟩

theorem perform_recordPeerEndpoint {now : Int} {kind : EndpointKind}
    {addr : String} {observedAt : Option Int} {via : ObservedVia}
    {origin : Option EndpointRecord} {answer : Except StoreError Unit}
    (performed : perform thread world (.gossip (.recordPeerEndpoint now id
      kind addr observedAt via origin)) answer = some after) :
    after.peers = world.peers ∧ after.details = world.details ∧
      after.secrets = world.secrets := by
  obtain ⟨next, inner, rfl⟩ := perform_gossip performed
  cases answer with
  | error =>
    cases inner
    exact ⟨rfl, rfl, rfl⟩
  | ok =>
    obtain ⟨-, rfl⟩ := Gossip.of_guarded inner
    exact ⟨rfl, rfl, rfl⟩

theorem perform_createPeer {label keyHash : String} {scope : PeerScope}
    {now : Int} {answer : Except StoreError Peer}
    (performed : perform thread world (.createPeer label keyHash scope now)
      answer = some after) :
    (∃ reason, answer = .error reason ∧ after = world) ∨
      ∃ peer peers, answer = .ok peer ∧
        world.peers.insert label keyHash now = some (peer, peers) ∧
          after = (world.withPeers peers).setDetails peer.id
            ⟨scope, none, none⟩ := by
  cases answer with
  | error reason =>
    left
    refine ⟨reason, rfl, ?_⟩
    cases reason with
    | userExists username =>
      obtain ⟨-, rfl⟩ := Gossip.of_guarded performed
      rfl
    | sql | invalidUser | invalidGossipUrl =>
      cases performed
      rfl
  | ok peer =>
    right
    simp only [perform] at performed
    cases inserted : world.peers.insert label keyHash now with
    | none => simp [inserted] at performed
    | some created =>
      simp only [inserted] at performed
      obtain ⟨rfl, rfl⟩ := Gossip.of_guarded performed
      exact ⟨created.1, created.2, rfl, rfl, rfl⟩

theorem perform_setPeerLimits {maxSizeBytes maxHeight : Option Int}
    (performed : perform thread world (.setPeerLimits id maxSizeBytes
      maxHeight) answer = some after) :
    (∃ reason, answer = .error reason ∧ after = world) ∨
      (∃ changed, answer = .ok changed) ∧
        after = world.setDetails id
          { world.details id with maxSizeBytes, maxHeight } := by
  cases answer with
  | error reason =>
    cases performed
    exact .inl ⟨reason, rfl, rfl⟩
  | ok changed =>
    obtain ⟨-, rfl⟩ := Gossip.of_guarded performed
    exact .inr ⟨⟨changed, rfl⟩, rfl⟩

theorem perform_bindPeerPubkey {pubkey : String}
    (performed : perform thread world (.gossip (.bindPeerPubkey id pubkey))
      answer = some after) :
    answer ≠ .ok true ∧ after = world ∨
      answer = .ok true ∧ (world.peers.row? id).isSome ∧
        after = world.pin id pubkey := by
  obtain ⟨next, inner, rfl⟩ := perform_gossip performed
  cases answer with
  | error reason =>
    cases inner
    exact .inl ⟨by simp, rfl⟩
  | ok bound =>
    simp only [Gossip.perform] at inner
    obtain ⟨same, inner⟩ := Option.ite_none_right_eq_some.mp inner
    cases bound with
    | false =>
      cases inner
      exact .inl ⟨by simp, rfl⟩
    | true =>
      cases inner
      refine .inr ⟨rfl, ?_, rfl⟩
      rw [World.peers, Option.isSome_iff_ne_none]
      intro absent
      rw [Gossip.World.bindable, absent] at same
      cases same

theorem perform_peerByKeyHash {hash : String}
    {answer : Except StoreError (Option Peer)}
    (performed : perform thread world (.peerByKeyHash hash) answer =
      some after) : after = world := by
  cases answer with
  | error =>
    cases performed
    rfl
  | ok peer =>
    simp only [perform] at performed
    exact (Gossip.of_guarded performed).2.symm

theorem perform_vaultRemove {answer : Except VaultError Bool}
    (performed : perform thread world (.vaultRemove key) answer = some after) :
    (∃ reason, answer = .error reason ∧ after = world) ∨
      answer = .ok (world.secrets.holds key) ∧
        after = world.withSecrets (world.secrets.remove key) := by
  cases answer with
  | error reason =>
    cases performed
    exact .inl ⟨reason, rfl, rfl⟩
  | ok existed =>
    simp only [perform] at performed
    obtain ⟨rfl, rfl⟩ := Gossip.of_guarded performed
    exact .inr ⟨rfl, rfl⟩

/-- A row that is there stays, whatever an invite writes to it. -/
theorem stays_of_applyInvite {peer : Peer} {invite : Gossip.Invite}
    {result : Except String Unit}
    (ends : Ends perform thread world
      (gossip (Gossip.applyInvite crates.toCrates peer invite)) own after
        result) (there : (world.peers.row? id).isSome) :
    (after.peers.row? id).isSome := by
  let Stays (request : Call) : Prop := ∀ world answer after,
    perform thread world request answer = some after →
      (world.peers.row? id).isSome → (after.peers.row? id).isSome
  have only : (Gossip.applyInvite crates.toCrates peer invite).Only
      fun wanted => Stays (.gossip wanted) := by
    apply Gossip.applyInvite_only
    · intro pubkey world answer after performed there
      rcases perform_bindPeerPubkey performed with ⟨-, rfl⟩ | ⟨-, -, rfl⟩
      · exact there
      · rw [world.row?_pin]
        split
        · rwa [Option.isSome_map]
        · exact there
    · intro url world answer after performed there
      rcases perform_setPeerGossipUrl performed with ⟨-, -, rfl⟩ | ⟨-, rfl⟩
      · exact there
      · rw [world.row?_setUrl]
        split
        · rwa [Option.isSome_map]
        · exact there
    · intro value world answer after performed there
      rcases perform_vaultPut performed with ⟨-, -, rfl⟩ | ⟨-, rfl⟩
      · exact there
      · exact there
  have lifted : (gossip (Gossip.applyInvite crates.toCrates peer
      invite)).Only Stays := only.lift fun _ stays => stays
  exact ends.keeps lifted (fun world => (world.peers.row? id).isSome)
    (fun world request answer after stays => stays world answer after) there

theorem createPeer_ends {label : String} {scope : PeerScope}
    {result : Except StoreError Peer}
    (ends : Ends perform thread world (createPeer crates label key scope) own
      after result) :
    (∃ message, validateLabel label = .error message ∧
        result = .error (.invalidUser message) ∧ own = [] ∧
          after = world) ∨
      validateLabel label = .ok (Rust.trim label) ∧
        ∃ now, own = [⟨thread, .gossip .nowEpoch, now⟩,
          ⟨thread, .createPeer (Rust.trim label) (crates.hashKey key) scope
            now, result⟩] ∧
        perform thread world (.createPeer (Rust.trim label)
          (crates.hashKey key) scope now) result = some after := by
  unfold createPeer at ends
  cases valid : validateLabel label with
  | error message =>
    rw [valid] at ends
    obtain ⟨rfl, rfl, rfl⟩ := Ends.done_iff.mp ends
    exact .inl ⟨message, rfl, rfl, rfl, rfl⟩
  | ok trimmed =>
    have same : trimmed = Rust.trim label := by
      simp only [validateLabel] at valid
      split at valid
      · cases valid
      · split at valid
        · cases valid
        · cases valid
          rfl
    subst same
    rw [valid] at ends
    obtain ⟨now, clocked, rest, rfl, read, ends⟩ := Ends.call_iff.mp ends
    rw [perform_nowEpoch read] at ends
    obtain ⟨answer, middle, later, rfl, performed, ends⟩ :=
      Ends.call_iff.mp ends
    obtain ⟨rfl, rfl, rfl⟩ := Ends.done_iff.mp ends
    exact .inr ⟨rfl, now, rfl, performed⟩

theorem setPeerGossipUrl_ends {text : Option String}
    {result : Except StoreError Bool}
    (ends : Ends perform thread world (setPeerGossipUrl crates id text) own
      after result) :
    (∃ reason, Gossip.gossipUrl crates.toCrates text = .error reason ∧
        result = .error reason ∧ own = [] ∧ after = world) ∨
      ∃ url, Gossip.gossipUrl crates.toCrates text = .ok url ∧
        own = [⟨thread, .gossip (.setPeerGossipUrl id url), result⟩] ∧
          perform thread world (.gossip (.setPeerGossipUrl id url)) result =
            some after := by
  unfold setPeerGossipUrl at ends
  cases normal : Gossip.gossipUrl crates.toCrates text with
  | error reason =>
    rw [normal] at ends
    obtain ⟨rfl, rfl, rfl⟩ := Ends.done_iff.mp ends
    exact .inl ⟨reason, rfl, rfl, rfl, rfl⟩
  | ok url =>
    rw [normal] at ends
    obtain ⟨answer, middle, later, rfl, performed, ends⟩ :=
      Ends.call_iff.mp ends
    obtain ⟨rfl, rfl, rfl⟩ := Ends.done_iff.mp ends
    exact .inr ⟨url, rfl, rfl, performed⟩

/-- The calls that come before any entry's. -/
def Opens : Call → Prop
  | .openStore | .gossip .openVault => True
  | _ => False

section Importer

variable {entries : List Settings.PeerImport} {events : List Event}

theorem hasVault_of_present {entry : Settings.PeerImport}
    (member : entry ∈ entries)
    (named : Settings.present entry.gossipKey ≠ none) :
    (entries.any fun peer => peer.gossipKey.isSome) = true := by
  refine List.any_eq_true.mpr ⟨entry, member, ?_⟩
  cases given : entry.gossipKey with
  | none => simp [Settings.present, given] at named
  | some key => rfl

section Steps

open Settings (PeerImport ImportSteps present whenPresent)

variable {entry : PeerImport} {own : List Event}
variable {result : Except String Unit}

/-- The step ended with the error of a call. -/
def Broke (own : List Event) (result : Except String Unit) : Prop :=
  (∃ reason, result = .error reason) ∧ SomeFailed own

theorem broke_last (before : List Event) {request : Call}
    {answer : Answer request} {reason : String}
    (fails : failed request answer = true) :
    Broke (before ++ [⟨thread, request, answer⟩]) (.error reason) :=
  ⟨⟨reason, rfl⟩, _, List.mem_append_right _ (List.mem_singleton_self _),
    fails⟩

/-- Limits are written where the entry has one. -/
theorem importLimits_ends
    (ends : Ends perform thread world (crates.steps.importLimits id entry) own
      after result) :
    Broke own result ∨ result = .ok () ∧
      (entry.maxSizeBytes = none ∧ entry.maxHeight = none ∧ after = world ∨
        after = world.setDetails id { world.details id with
          maxSizeBytes := entry.maxSizeBytes
          maxHeight := entry.maxHeight }) := by
  unfold ImportSteps.importLimits at ends
  split at ends
  · obtain ⟨answer, middle, later, rfl, performed, rest⟩ :=
      Ends.call_iff.mp ends
    obtain ⟨rfl, rfl, rfl⟩ := Ends.done_iff.mp rest
    rcases perform_setPeerLimits performed with
      ⟨reason, rfl, -⟩ | ⟨⟨changed, rfl⟩, rfl⟩
    · exact .inl (broke_last [] rfl)
    · exact .inr ⟨rfl, .inr rfl⟩
  · rename_i unlimited
    obtain ⟨rfl, rfl, rfl⟩ := Ends.done_iff.mp ends
    simp only [Bool.or_eq_true, Option.isSome_iff_ne_none, not_or,
      not_not] at unlimited
    exact .inr ⟨rfl, .inl ⟨unlimited.1, unlimited.2, rfl⟩⟩

/-- An address is written in its normal form, or refused. -/
theorem importAddress_ends
    (ends : Ends perform thread world (whenPresent (present entry.gossipUrl)
      (crates.steps.setPeerGossipUrl id)) own after result) :
    present entry.gossipUrl = none ∧ result = .ok () ∧ after = world ∨
      ∃ text, present entry.gossipUrl = some text ∧
        ((∃ reason, Gossip.gossipUrl crates.toCrates (some text) =
            .error reason ∧ (∃ reason, result = .error reason) ∧
              after = world) ∨
          ∃ url, Gossip.gossipUrl crates.toCrates (some text) = .ok url ∧
            (Broke own result ∨
              result = .ok () ∧ after = world.setUrl id url)) := by
  cases given : present entry.gossipUrl with
  | none =>
    rw [given] at ends
    obtain ⟨rfl, rfl, rfl⟩ := Ends.done_iff.mp ends
    exact .inl ⟨rfl, rfl, rfl⟩
  | some text =>
    rw [given] at ends
    obtain ⟨first, second, middle, answer, rfl, begun, finish⟩ :=
      Ends.bind_iff.mp ends
    obtain ⟨rfl, rfl, rfl⟩ := Ends.done_iff.mp finish
    refine .inr ⟨text, rfl, ?_⟩
    rcases setPeerGossipUrl_ends begun with
      ⟨reason, normal, rfl, rfl, rfl⟩ | ⟨url, normal, rfl, performed⟩
    · exact .inl ⟨reason, normal, ⟨_, rfl⟩, rfl⟩
    · refine .inr ⟨url, normal, ?_⟩
      rcases perform_setPeerGossipUrl performed with
        ⟨reason, rfl, -⟩ | ⟨rfl, rfl⟩
      · exact .inl (broke_last [] rfl)
      · exact .inr ⟨rfl, rfl⟩

theorem importKey_ends {hasVault : Bool}
    (opened : present entry.gossipKey ≠ none → hasVault = true)
    (ends : Ends perform thread world (whenPresent (present entry.gossipKey)
      (crates.steps.importGossipKey hasVault id)) own after result) :
    Broke own result ∨ result = .ok () ∧
      after = (present entry.gossipKey).elim world
        (world.putKey (Gossip.peerGossipKey id)) := by
  cases given : present entry.gossipKey with
  | none =>
    rw [given] at ends
    obtain ⟨rfl, rfl, rfl⟩ := Ends.done_iff.mp ends
    exact .inr ⟨rfl, rfl⟩
  | some key =>
    have hasVault := opened (by simp [given])
    rw [given] at ends
    simp only [whenPresent, ImportSteps.importGossipKey,
      if_pos hasVault] at ends
    obtain ⟨answer, middle, later, rfl, performed, rest⟩ :=
      Ends.call_iff.mp ends
    obtain ⟨rfl, rfl, rfl⟩ := Ends.done_iff.mp rest
    rcases perform_vaultPut performed with ⟨reason, rfl, -⟩ | ⟨rfl, rfl⟩
    · exact .inl (broke_last [] rfl)
    · exact .inr ⟨rfl, rfl⟩

theorem importLastAddr_ends
    (ends : Ends perform thread world (whenPresent (present entry.lastAddr)
      (crates.steps.recordPeerEndpoint id)) own after result) :
    Broke own result ∨ result = .ok () ∧ ∃ now,
      after = (present entry.lastAddr).elim world fun addr =>
        { world with
          gossip := world.gossip.recordPeerEndpoint now id .api addr none
            .restored } := by
  cases given : present entry.lastAddr with
  | none =>
    rw [given] at ends
    obtain ⟨rfl, rfl, rfl⟩ := Ends.done_iff.mp ends
    exact .inr ⟨rfl, 0, rfl⟩
  | some addr =>
    rw [given] at ends
    obtain ⟨now, clocked, rest, rfl, read, ends⟩ := Ends.call_iff.mp ends
    rw [perform_nowEpoch read] at ends
    obtain ⟨answer, middle, later, rfl, performed, ends⟩ :=
      Ends.call_iff.mp ends
    obtain ⟨rfl, rfl, rfl⟩ := Ends.done_iff.mp ends
    cases answer with
    | error reason => exact .inl (broke_last [_] rfl)
    | ok =>
      obtain ⟨next, recorded, rfl⟩ := perform_gossip performed
      obtain ⟨-, rfl⟩ := Gossip.of_guarded recorded
      exact .inr ⟨rfl, now, rfl⟩

end Steps

/-- The importer has nothing to do, or what it needs does not open, or it
comes to the entries. -/
theorem importPeers_ends
    (ends : Ends perform thread world (importPeers crates entries) events
      after ()) :
    (entries = [] ∧ after = world) ∨
      (SomeFailed events ∧ ∀ event ∈ events, Opens event.request) ∨
      ∃ opening drained, events = opening ++ drained ∧
        (∀ event ∈ opening, Opens event.request) ∧
          Ends perform thread world (crates.steps.drainPeers
            (entries.any fun peer => peer.gossipKey.isSome) entries) drained
              after () := by
  unfold importPeers Settings.ImportSteps.importPeers at ends
  split at ends
  · rename_i empty
    obtain ⟨-, rfl, -⟩ := Ends.done_iff.mp ends
    exact .inl ⟨empty, rfl⟩
  right
  obtain ⟨answer, middle, rest, rfl, performed, ends⟩ := Ends.call_iff.mp ends
  cases performed
  cases answer with
  | error reason =>
    obtain ⟨rfl, -, -⟩ := Ends.done_iff.mp ends
    exact .inl ⟨⟨_, List.mem_singleton_self _, rfl⟩, by simp [Opens]⟩
  | ok =>
    simp only [Prog.bind_done] at ends
    split at ends
    · rename_i keyed
      obtain ⟨answer, middle, rest, rfl, performed, ends⟩ :=
        Ends.call_iff.mp ends
      rw [perform_openVault performed] at ends
      cases answer with
      | error reason =>
        obtain ⟨rfl, -, -⟩ := Ends.done_iff.mp ends
        refine .inl ⟨⟨⟨thread, .gossip .openVault, .error reason⟩, ?_, rfl⟩, ?_⟩
        · simp
        · simp [Opens]
      | ok secrets =>
        rw [keyed]
        exact .inr ⟨[_, _], rest, rfl, by simp [Opens], ends⟩
    · rename_i keyless
      rw [Bool.eq_false_of_not_eq_true keyless]
      exact .inr ⟨[_], rest, rfl, by simp [Opens], ends⟩

end Importer

end Friends

end Sharerr
