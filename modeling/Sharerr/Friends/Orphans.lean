import Sharerr.Friends.Restored
import Sharerr.Process.History

/-!
# The keys of deleted friends

A writer looks for the row before it stores the friend's key, and a deletion
removes the row before it removes the key.  As long as no removal of the key
comes between the two steps of a writer, a key without a row is one that a
deletion under way has still to remove, and none is left when all are done.
-/

namespace Sharerr

namespace Friends

open Process (Prog History historyOf lately)
open Gossip (peerGossipKey)

/-- Every key of a friend in the vault is the key of a row. -/
def NoOrphans (world : World) : Prop :=
  ∀ id, world.secrets.holds (peerGossipKey id) = true →
    (world.peers.row? id).isSome

/-- The answer shows that the row is there. -/
def checksRow (id : Nat) : (request : Call) → Answer request → Bool
  | .gossip (.peer _), .ok (some peer) => peer.id = id
  | .gossip (.setPeerGossipUrl target _), .ok true => target = id
  | .createPeer _ _ _ _, .ok peer => peer.id = id
  | _, _ => false

def deletesRow (id : Nat) : (request : Call) → Answer request → Bool
  | .gossip (.deletePeer target), .ok _ => target = id
  | _, _ => false

def removesKey (id : Nat) : (request : Call) → Answer request → Bool
  | .vaultRemove key, .ok _ => key = peerGossipKey id
  | _, _ => false

/-- The vault opened and a key was removed where this was asked. -/
def vaultWorks : (request : Call) → Answer request → Bool
  | .gossip .openVault, .error _ => false
  | .vaultRemove _, .error _ => false
  | _, _ => true

/-- The thread has seen the row, and nobody removed the key since. -/
def sinceChecked (thread id : Nat) (past : List Event) : Bool :=
  lately
    (fun event => event.thread = thread &&
      checksRow id event.request event.answer)
    (fun event => removesKey id event.request event.answer) past

/-- In its history a thread deleted the row and did not remove the key yet. -/
def deleting (id : Nat) (seen : History Answer) : Bool :=
  lately (fun asked => deletesRow id asked.1 asked.2)
    (fun asked => removesKey id asked.1 asked.2) seen

/-- The vault works, and a key is stored only where nobody removed it since the
writer saw the row. -/
def Unbroken : Process.Condition Nat World Call Answer :=
  fun moment event =>
    vaultWorks event.request event.answer = true ∧
      ∀ id value,
        event.request = .gossip (.vaultPut (peerGossipKey id) value) →
          (moment.past.any fun earlier => earlier.thread = event.thread &&
              checksRow id earlier.request earlier.answer) = true →
            sinceChecked event.thread id moment.past = true

section Steps

variable {thread id : Nat} {world after : World}
variable {request : Call} {answer : Answer request}

theorem isSome_onRow {row : Option PeerRow} (write : Gossip.Write)
    (there : row.isSome) :
    (write.onRow id row).isSome ∨ write = .delete id := by
  cases write with
  | delete target =>
    by_cases here : id = target
    · exact .inr (here ▸ rfl)
    · left
      rwa [Gossip.Write.onRow, if_neg here]
  | bind | record | url | revoke =>
    left
    simp only [Gossip.Write.onRow]
    split
    · rwa [Option.isSome_map]
    · exact there
  | endpoint | create | secret => exact .inl there

theorem deletesRow_of_written {wanted : Gossip.Call}
    {answer : Gossip.Answer wanted}
    (written : Gossip.written wanted answer = some (.delete id)) :
    deletesRow id (.gossip wanted) answer = true := by
  unfold Gossip.written at written
  split at written <;> cases written
  simp [deletesRow]

theorem request_of_secret {wanted : Gossip.Call}
    {answer : Gossip.Answer wanted} {key value : String}
    (written : Gossip.written wanted answer = some (.secret key value)) :
    wanted = .vaultPut key value := by
  unfold Gossip.written at written
  split at written <;> cases written
  rfl

theorem gossip_of_performed
    (performed : perform thread world request answer = some after) :
    after.gossip = world.gossip ∨
      (∃ write : Gossip.Write, after.gossip = write.apply world.gossip ∧
        (∀ id, write = .delete id → deletesRow id request answer = true) ∧
          ∀ key value, write = .secret key value →
            request = .gossip (.vaultPut key value)) ∨
        ∃ key, after.gossip =
          { world.gossip with secrets := world.secrets.remove key } := by
  cases request with
  | gossip wanted =>
    obtain ⟨next, inner, rfl⟩ := perform_gossip performed
    rcases Gossip.perform_cases inner with
      ⟨-, rfl⟩ | ⟨write, written, -, rfl⟩
    · exact .inl rfl
    · refine .inr (.inl ⟨write, rfl, ?_, ?_⟩)
      · exact fun id same => deletesRow_of_written (same ▸ written)
      · exact fun key value same =>
          congrArg _ (request_of_secret (same ▸ written))
  | createPeer label keyHash scope now =>
    rcases perform_createPeer performed with
      ⟨-, -, rfl⟩ | ⟨peer, peers, -, inserted, rfl⟩
    · exact .inl rfl
    · refine .inr (.inl ⟨.create label keyHash now, ?_, nofun, nofun⟩)
      change world.gossip.peers.insert label keyHash now = _ at inserted
      rw [Gossip.Write.apply, inserted]
      rfl
  | setPeerLimits =>
    rcases perform_setPeerLimits performed with ⟨-, -, rfl⟩ | ⟨-, rfl⟩
    · exact .inl rfl
    · exact .inl rfl
  | peerByKeyHash =>
    rw [perform_peerByKeyHash performed]
    exact .inl rfl
  | vaultRemove key =>
    rcases perform_vaultRemove performed with ⟨-, -, rfl⟩ | ⟨-, rfl⟩
    · exact .inl rfl
    · exact .inr (.inr ⟨key, rfl⟩)
  | openStore | randomHex | stripPeersBlock =>
    cases performed
    exact .inl rfl

/-- A row that was there is there, unless the call deleted it. -/
theorem row_of_performed
    (performed : perform thread world request answer = some after)
    (there : (world.peers.row? id).isSome) :
    (after.peers.row? id).isSome ∨ deletesRow id request answer = true := by
  obtain ⟨row, found⟩ := Option.isSome_iff_exists.mp there
  have old := PeerTable.row?_lt_nextId found
  unfold World.peers
  rcases gossip_of_performed performed with
    same | ⟨write, same, deletes, -⟩ | ⟨key, same⟩
  · exact .inl (same ▸ there)
  · rw [same, write.row?_apply old]
    exact (isSome_onRow write there).imp_right (deletes id)
  · exact .inl (same ▸ there)

/-- What no write undoes, a call keeps of the row of an id that was given
out. -/
theorem kept_of_performed (good : Option PeerRow → Prop)
    (stays : ∀ (write : Gossip.Write) row, good row → good (write.onRow id row))
    (performed : perform thread world request answer = some after)
    (holds : id < world.peers.nextId ∧ good (world.peers.row? id)) :
    id < after.peers.nextId ∧ good (after.peers.row? id) := by
  unfold World.peers at *
  rcases gossip_of_performed performed with
    same | ⟨write, same, -⟩ | ⟨key, same⟩
  · exact same ▸ holds
  · rw [same, write.row?_apply holds.1]
    exact ⟨holds.1.trans_le write.nextId_le_apply, stays _ _ holds.2⟩
  · exact same ▸ holds

theorem row_of_checksRow
    (performed : perform thread world request answer = some after)
    (checks : checksRow id request answer = true) :
    (after.peers.row? id).isSome := by
  unfold checksRow at checks
  split at checks
  · rename_i target peer
    obtain rfl := of_decide_eq_true checks
    obtain ⟨next, inner, rfl⟩ := perform_gossip performed
    obtain ⟨shown, rfl⟩ := Gossip.of_guarded inner
    obtain ⟨row, found, rfl⟩ := Option.map_eq_some_iff.mp shown.symm
    rw [(PeerTable.row?_eq_some_iff.mp found).2]
    exact Option.isSome_of_eq_some found
  · obtain rfl := of_decide_eq_true checks
    rcases perform_setPeerGossipUrl performed with
      ⟨reason, wrong, -⟩ | ⟨found, rfl⟩
    · cases wrong
    · rw [world.row?_setUrl, if_pos rfl, Option.isSome_map]
      exact (Except.ok.inj found).symm
  · obtain rfl := of_decide_eq_true checks
    rcases perform_createPeer performed with
      ⟨reason, wrong, -⟩ | ⟨peer, peers, same, inserted, rfl⟩
    · cases wrong
    · cases same
      rw [(PeerTable.insert_eq_some inserted).1]
      exact Option.isSome_of_eq_some (PeerTable.row?_insert_new inserted)
  · cases checks

/-- A key that is held was held, unless the call stored it. -/
theorem holds_of_performed
    (performed : perform thread world request answer = some after)
    (held : after.secrets.holds (peerGossipKey id) = true) :
    world.secrets.holds (peerGossipKey id) = true ∨
      ∃ value, request = .gossip (.vaultPut (peerGossipKey id) value) := by
  unfold World.secrets at *
  rcases gossip_of_performed performed with
    same | ⟨write, same, -, stores⟩ | ⟨key, same⟩
  · exact .inl (same ▸ held)
  · rw [same] at held
    cases write with
    | secret key value =>
      rcases Gossip.Secrets.holds_put_iff.mp held with rfl | old
      · exact .inr ⟨value, stores _ _ rfl⟩
      · exact .inl old
    | create label keyHash now =>
      left
      simp only [Gossip.Write.apply] at held
      split at held
      · exact held
      · exact held
    | bind | endpoint | record | url | revoke | delete => exact .inl held
  · rw [same] at held
    exact .inl (Gossip.Secrets.holds_remove_iff.mp held).2

theorem gone_of_removesKey
    (performed : perform thread world request answer = some after)
    (removes : removesKey id request answer = true) :
    after.secrets.holds (peerGossipKey id) = false := by
  unfold removesKey at removes
  split at removes
  · obtain rfl := of_decide_eq_true removes
    rcases perform_vaultRemove performed with
      ⟨reason, wrong, -⟩ | ⟨-, rfl⟩
    · cases wrong
    · rw [Bool.eq_false_iff]
      intro held
      exact (Gossip.Secrets.holds_remove_iff.mp held).1 rfl
  · cases removes

end Steps

abbrev Moment := Process.Moment Nat World Call Answer

/-- The row is there, or a deletion under way has still to remove the key. -/
def Sheltered (id : Nat) (moment : Moment) : Prop :=
  (moment.world.peers.row? id).isSome ∨
    ∃ thread, deleting id (historyOf thread moment.past) = true

structure Covered (moment : Moment) : Prop where
  keys : ∀ id, moment.world.secrets.holds (peerGossipKey id) = true →
    Sheltered id moment
  /-- What a writer has seen is sheltered. -/
  seen : ∀ thread id, sinceChecked thread id moment.past = true →
    Sheltered id moment

/-- The thread has seen the row. -/
def Checked (id : Nat) (seen : History Answer) : Prop :=
  ∃ asked ∈ seen, checksRow id asked.1 asked.2 = true

/-- A writer stores the key of a friend whose row it has seen. -/
def asksToPut (seen : History Answer) (request : Call) : Prop :=
  ∀ id value, request = .gossip (.vaultPut (peerGossipKey id) value) →
    Checked id seen

section Invariant

variable {moment : Moment} {after : World} {event : Event} {id : Nat}

/-- The step of a run, as its thread's program and the condition allow it. -/
structure Takes (moment : Moment) (event : Event) (after : World) : Prop where
  performed : perform event.thread moment.world event.request event.answer =
    some after
  meets : Unbroken moment event
  asks : asksToPut (historyOf event.thread moment.past) event.request

theorem deleting_append (thread : Nat) (past : List Event) :
    deleting id (historyOf thread (past ++ [event])) =
      if event.thread = thread then
        deletesRow id event.request event.answer ||
          deleting id (historyOf thread past) &&
            !removesKey id event.request event.answer
      else deleting id (historyOf thread past) := by
  rw [Process.historyOf_append]
  split
  · exact Process.lately_append ..
  · rfl

theorem sinceChecked_append (thread : Nat) (past : List Event) :
    sinceChecked thread id (past ++ [event]) =
      (event.thread = thread && checksRow id event.request event.answer ||
        sinceChecked thread id past &&
          !removesKey id event.request event.answer) :=
  Process.lately_append ..

/-- Only the removal of the key ends a shelter. -/
theorem Sheltered.step (sheltered : Sheltered id moment)
    (takes : Takes moment event after)
    (kept : removesKey id event.request event.answer = false) :
    Sheltered id ⟨after, moment.past ++ [event]⟩ := by
  rcases sheltered with there | ⟨thread, under⟩
  · rcases row_of_performed takes.performed there with still | deleted
    · exact .inl still
    · refine .inr ⟨event.thread, ?_⟩
      rw [deleting_append, if_pos rfl, deleted]
      rfl
  · refine .inr ⟨thread, ?_⟩
    rw [deleting_append, under, kept]
    split <;> simp

theorem checked_iff_any {thread : Nat} {past : List Event} :
    (past.any fun earlier => earlier.thread = thread &&
        checksRow id earlier.request earlier.answer) = true ↔
      Checked id (historyOf thread past) := by
  rw [List.any_eq_true]
  constructor
  · rintro ⟨⟨caller, request, answer⟩, member, shows⟩
    simp only [Bool.and_eq_true, decide_eq_true_eq] at shows
    obtain ⟨rfl, checks⟩ := shows
    exact ⟨⟨request, answer⟩, Process.mem_historyOf.mpr member, checks⟩
  · rintro ⟨⟨request, answer⟩, member, checks⟩
    refine ⟨⟨thread, request, answer⟩, Process.mem_historyOf.mp member, ?_⟩
    simpa using checks

theorem Covered.step (holds : Covered moment)
    (takes : Takes moment event after) :
    Covered ⟨after, moment.past ++ [event]⟩ := by
  constructor
  · intro id held
    have kept : removesKey id event.request event.answer = false := by
      rw [Bool.eq_false_iff]
      intro removes
      rw [gone_of_removesKey takes.performed removes] at held
      cases held
    rcases holds_of_performed takes.performed held with old | ⟨value, puts⟩
    · exact (holds.keys id old).step takes kept
    · have seen := takes.meets.2 id value puts
        (checked_iff_any.mpr (takes.asks id value puts))
      exact (holds.seen _ id seen).step takes kept
  · intro thread id seen
    rw [sinceChecked_append, Bool.or_eq_true, Bool.and_eq_true,
      Bool.and_eq_true, Bool.not_eq_true'] at seen
    rcases seen with ⟨-, checks⟩ | ⟨old, kept⟩
    · exact .inl (row_of_checksRow takes.performed checks)
    · exact (holds.seen thread id old).step takes kept

end Invariant

section Programs

-- what the forms' texts are does not matter here
attribute [local irreducible] Rust.trim decode

variable {crates : Crates} {ids : List Nat} {seen : History Answer}

/-- The thread has deleted nothing, and has seen the rows of `ids`. -/
structure Ready (ids : List Nat) (seen : History Answer) : Prop where
  deletes : ∀ asked ∈ seen, ∀ id, deletesRow id asked.1 asked.2 = false
  checked : ∀ id ∈ ids, Checked id seen

/-- The calls of a thread that deletes nothing and has seen the rows of
`ids`. -/
def Harmless (ids : List Nat) : Call → Prop
  | .gossip (.deletePeer _) => False
  | .gossip (.vaultPut key _) => ∃ id ∈ ids, key = peerGossipKey id
  | _ => True

theorem ready_nil : Ready [] [] := by
  constructor
  · intro asked member
    cases member
  · intro id member
    cases member

theorem Ready.fewer {more : List Nat} (ready : Ready more seen)
    (among : ids ⊆ more) : Ready ids seen :=
  ⟨ready.deletes, fun id member => ready.checked id (among member)⟩

variable {id : Nat} {request : Call} {invite : Invite}

theorem Checked.append (checked : Checked id seen)
    (asked : (request : Call) × Answer request) :
    Checked id (seen ++ [asked]) := by
  obtain ⟨earlier, member, checks⟩ := checked
  exact ⟨earlier, List.mem_append_left _ member, checks⟩

theorem deletesRow_of_harmless {answer : Answer request}
    (harmless : Harmless ids request) (id : Nat) :
    deletesRow id request answer = false := by
  unfold deletesRow
  split
  · exact harmless.elim
  · rfl

theorem Ready.step (ready : Ready ids seen) (request : Call)
    (answer : Answer request) (harmless : Harmless ids request) :
    Ready ids (seen ++ [⟨request, answer⟩]) := by
  constructor
  · intro asked member id
    rcases List.mem_append.mp member with old | new
    · exact ready.deletes asked old id
    · rw [List.mem_singleton.mp new]
      exact deletesRow_of_harmless harmless id
  · intro id member
    exact (ready.checked id member).append _

theorem Ready.check (ready : Ready ids seen) (request : Call)
    (answer : Answer request) (id : Nat) (harmless : Harmless ids request)
    (checks : checksRow id request answer = true) :
    Ready (id :: ids) (seen ++ [⟨request, answer⟩]) := by
  constructor
  · exact (ready.step request answer harmless).deletes
  · intro other member
    rcases List.mem_cons.mp member with rfl | old
    · exact ⟨_, List.mem_append_right _ (List.mem_singleton_self _), checks⟩
    · exact (ready.checked other old).append _

theorem Ready.asks (ready : Ready ids seen) (harmless : Harmless ids request) :
    asksToPut seen request := by
  rintro id value rfl
  obtain ⟨other, member, same⟩ := harmless
  cases Gossip.peerGossipKey_injective same
  exact ready.checked id member

/-- What the answers of a working vault let a program ask. -/
abbrev Behaves {α : Type} (program : Program α)
    (post : α → History Answer → Prop) (seen : History Answer) : Prop :=
  program.Along (fun request answer => vaultWorks request answer = true)
    asksToPut post seen

theorem behaves_of_harmless {α : Type} {program : Program α}
    (only : program.Only (Harmless ids)) (ready : Ready ids seen) :
    Behaves program (fun _ later => Ready ids later) seen :=
  Prog.Along.of_only
    (fun _ _ harmless ready =>
      ⟨ready.asks harmless, fun _ _ => ready.step _ _ harmless⟩) only ready

theorem setPeerGossipUrl_behaves {id : Nat} {text : Option String}
    (ready : Ready [] seen) :
    Behaves (setPeerGossipUrl crates id text)
      (fun result later => Ready [] later ∧
        (result = .ok true → Ready [id] later)) seen := by
  unfold setPeerGossipUrl
  split
  · exact ⟨ready, nofun⟩
  · refine ⟨ready.asks trivial, fun answer _ => ?_⟩
    refine ⟨ready.step _ _ trivial, ?_⟩
    rintro rfl
    exact ready.check _ _ _ trivial (by simp [checksRow])

theorem setGossipKey_only (id : Nat) (form : GossipForm) :
    (setGossipKey id form).Only (Harmless [id]) := by
  have stores : (storeKey id form).Only (Harmless [id]) := by
    unfold storeKey
    split
    · exact ⟨trivial, fun _ => trivial⟩
    · exact ⟨⟨id, List.mem_singleton_self _, rfl⟩, fun _ => trivial⟩
  unfold setGossipKey
  split
  · refine ⟨trivial, fun answer => ?_⟩
    cases answer with
    | error => trivial
    | ok =>
      apply stores.bind
      intro stored
      cases stored <;> trivial
  · trivial

theorem ready_of_harmless {α : Type} {program : Program α}
    (only : program.Only (Harmless ids)) (ready : Ready ids seen) :
    Behaves program (fun _ later => Ready [] later) seen :=
  (behaves_of_harmless only ready).mono fun _ _ ready =>
    ready.fewer (List.nil_subset _)

theorem setGossip_behaves (id : Nat) (form : GossipForm) :
    Behaves (setGossip crates id form) (fun _ later => Ready [] later) [] := by
  refine ⟨ready_nil.asks trivial, fun answer _ => ?_⟩
  have ready := ready_nil.step .openStore answer trivial
  cases answer with
  | error reason => exact ready
  | ok =>
    apply (setPeerGossipUrl_behaves ready).bind
    rintro (reason | _ | _) later ⟨waiting, checked⟩
    · exact waiting
    · exact waiting
    · exact ready_of_harmless (setGossipKey_only id form) (checked rfl)

theorem applyOutbound_behaves {peer : Peer} {invite : Gossip.Invite}
    (ready : Ready [] seen) :
    Behaves (gossip (Gossip.applyOutbound crates.toCrates peer invite))
      (fun _ later => Ready [] later) seen := by
  unfold gossip Gossip.applyOutbound
  split
  · exact ready
  · rename_i url normal
    refine ⟨ready.asks trivial, fun answer _ => ?_⟩
    rcases answer with reason | _ | _
    · exact ready.step _ _ trivial
    · exact ready.step _ _ trivial
    · have checked := ready.check
        (.gossip (.setPeerGossipUrl peer.id url)) (.ok true) peer.id trivial
        (by simp [checksRow])
      have stores : Harmless [peer.id]
          (.gossip (.vaultPut (peerGossipKey peer.id) invite.key)) :=
        ⟨peer.id, List.mem_singleton_self _, rfl⟩
      refine ⟨checked.asks stores, fun stored _ => ?_⟩
      have done := (checked.step _ stored stores).fewer
        (List.nil_subset _)
      cases stored <;> exact done

theorem applied_behaves {peer : Peer} (ready : Ready [] seen) :
    Behaves (applied crates peer invite) (fun _ later => Ready [] later)
      seen := by
  have applies : Behaves
      (gossip (Gossip.applyInvite crates.toCrates peer invite.toInvite))
      (fun _ later => Ready [] later) seen := by
    unfold Gossip.applyInvite
    split
    · exact applyOutbound_behaves ready
    · refine ⟨ready.asks trivial, fun answer _ => ?_⟩
      rcases answer with reason | _ | _
      · exact ready.step _ _ trivial
      · exact ready.step _ _ trivial
      · exact applyOutbound_behaves (ready.step _ _ trivial)
  unfold applied
  apply applies.bind
  rintro (reason | _) later ready
  · exact ready
  · exact ready

theorem createPeer_behaves {label key : String} {scope : PeerScope}
    (ready : Ready [] seen) :
    Behaves (createPeer crates label key scope)
      (fun result later => Ready [] later ∧
        ∀ peer, result = .ok peer → Ready [peer.id] later) seen := by
  unfold createPeer
  split
  · exact ⟨ready, nofun⟩
  · refine ⟨ready.asks trivial, fun now _ => ?_⟩
    have clocked := ready.step (.gossip .nowEpoch) now trivial
    refine ⟨clocked.asks trivial, fun answer _ => ?_⟩
    refine ⟨clocked.step _ _ trivial, ?_⟩
    rintro peer rfl
    exact clocked.check _ _ _ trivial (by simp [checksRow])

theorem mintPeer_behaves {label : String} {scope : PeerScope}
    (ready : Ready [] seen) :
    Behaves (mintPeer crates label scope) (fun _ later => Ready [] later)
      seen := by
  refine ⟨ready.asks trivial, fun answer _ => ?_⟩
  have later := ready.step .randomHex answer trivial
  cases answer with
  | error reason => exact later
  | ok key =>
    exact (createPeer_behaves later).bind fun _ _ created => created.1

theorem applyReply_behaves {hash : String} (ready : Ready [] seen) :
    Behaves (applyReply crates invite hash) (fun _ later => Ready [] later)
      seen := by
  refine ⟨ready.asks trivial, fun answer _ => ?_⟩
  rcases answer with reason | _ | peer
  · exact ready.step _ _ trivial
  · exact ready.step _ _ trivial
  · exact applied_behaves (ready.step _ _ trivial)

theorem applyFresh_behaves {form : PairForm} (ready : Ready [] seen) :
    Behaves (applyFresh crates form invite) (fun _ later => Ready [] later)
      seen := by
  simp only [applyFresh]
  split
  · exact ready
  · apply (mintPeer_behaves ready).bind
    rintro (reason | peer) later ready
    · exact ready
    · exact applied_behaves ready

theorem decode_only (crates : Crates) (text : String) :
    (decode crates text).Only (Harmless []) := by
  unfold decode
  split
  · trivial
  · exact ⟨trivial, fun _ => trivial⟩

theorem pair_behaves (form : PairForm) :
    Behaves (pair crates form) (fun _ later => Ready [] later) [] := by
  refine ⟨ready_nil.asks trivial, fun answer _ => ?_⟩
  have ready := ready_nil.step .openStore answer trivial
  cases answer with
  | error reason => exact ready
  | ok =>
    -- what decoding computes does not matter here
    have only := decode_only crates form.invite
    simp only
    generalize decode crates form.invite = decoding at only ⊢
    apply (behaves_of_harmless only ready).bind
    rintro (reason | invite) later ready
    · exact ready
    · refine ⟨ready.asks trivial, fun answer _ => ?_⟩
      have opened := ready.step (.gossip .openVault) answer trivial
      cases answer with
      | error reason => exact opened
      | ok secrets =>
        cases invite.inReplyTo with
        | some hash => exact applyReply_behaves opened
        | none => exact applyFresh_behaves opened

theorem harmless_of_concerns (concerns : Concerns id request) :
    Harmless [id] request := by
  unfold Concerns at concerns
  split at concerns
  · trivial
  · trivial
  · exact ⟨id, List.mem_singleton_self _, concerns⟩
  · trivial
  · trivial
  · exact concerns.elim

theorem importOnePeer_behaves {hasVault : Bool}
    {entry : Settings.PeerImport} (ready : Ready [] seen) :
    Behaves (crates.steps.importOnePeer hasVault entry)
      (fun _ later => Ready [] later) seen := by
  rw [importOnePeer_eq]
  refine ⟨ready.asks trivial, fun answer _ => ?_⟩
  have later := ready.step .randomHex answer trivial
  cases answer with
  | error reason => exact later
  | ok key =>
    apply (createPeer_behaves later).bind
    rintro (reason | peer) after ⟨waiting, created⟩
    · exact waiting
    · have only : (crates.steps.importHalves hasVault peer.id entry).Only
          (Harmless [peer.id]) :=
        (importHalves_only crates hasVault peer.id entry).mono
          fun _ concerns => harmless_of_concerns concerns
      exact ready_of_harmless only (created peer rfl)

theorem importPeers_behaves (entries : List Settings.PeerImport) :
    Behaves (importPeers crates entries) (fun _ later => Ready [] later)
      [] := by
  have drains : ∀ hasVault later, Ready [] later →
      Behaves (crates.steps.drainPeers hasVault entries)
        (fun _ later => Ready [] later) later := by
    intro hasVault later ready
    have each : Behaves (crates.steps.importEach hasVault entries)
        (fun _ later => Ready [] later) later := by
      refine Prog.Along.fold (fun _ _ later => Ready [] later) ?_ entries ()
        later ready
      intro entry _ _ later ready
      apply (importOnePeer_behaves ready).bind
      exact fun _ _ ready => ready
    apply each.bind
    intro _ after ready
    exact ⟨ready.asks trivial, fun _ _ => ready.step _ _ trivial⟩
  unfold importPeers Settings.ImportSteps.importPeers
  split
  · exact ready_nil
  · refine ⟨ready_nil.asks trivial, fun answer _ => ?_⟩
    have ready := ready_nil.step .openStore answer trivial
    cases answer with
    | error reason => exact ready
    | ok =>
      simp only
      split
      · refine ⟨ready.asks trivial, fun answer _ => ?_⟩
        have opened := ready.step (.gossip .openVault) answer trivial
        cases answer with
        | error reason => exact opened
        | ok secrets => exact drains true _ opened
      · exact drains false _ ready

theorem returnHalf_behaves (callerId : Nat) (request : Gossip.PairRequest) :
    Behaves (gossip (Gossip.pair crates.toCrates callerId request))
      (fun _ later => Ready [] later) [] := by
  refine ⟨ready_nil.asks trivial, fun answer _ => ?_⟩
  have ready := ready_nil.step (.gossip (.peer callerId)) answer trivial
  rcases answer with reason | _ | peer
  · exact ready
  · exact ready
  · have checked := ready_nil.check (.gossip (.peer callerId))
      (.ok (some peer)) peer.id trivial (by simp [checksRow])
    have stores : (Gossip.storeOutbound crates.toCrates peer request).Only
        fun wanted => Harmless [peer.id] (.gossip wanted) := by
      apply Gossip.storeOutbound_only
      · intro wanted ingests
        cases wanted <;> trivial
      · intro url
        trivial
      · intro value
        exact ⟨peer.id, List.mem_singleton_self _, rfl⟩
    have settles : ∀ program : Gossip.Program Gossip.Response,
        program.Only (fun wanted => Harmless [peer.id] (.gossip wanted)) →
          Behaves (gossip program) (fun _ later => Ready [] later) _ :=
      fun program only => ready_of_harmless
        (only.lift fun _ harmless => harmless) checked
    apply settles
    simp only
    split
    · trivial
    · refine ⟨trivial, fun answer => ?_⟩
      cases answer with
      | error reason => trivial
      | ok secrets =>
        simp only
        split
        · trivial
        · exact stores

/-- The thread has removed the key of each friend it deleted. -/
def Settled (seen : History Answer) : Prop :=
  ∀ id, deleting id seen = false

theorem Ready.settled (ready : Ready ids seen) : Settled seen :=
  fun id => Process.lately_eq_false fun asked member =>
    ready.deletes asked member id

theorem delete_behaves (id : Nat) :
    Behaves (delete id) (fun _ later => Settled later) [] := by
  refine ⟨ready_nil.asks trivial, fun answer _ => ?_⟩
  have ready := ready_nil.step .openStore answer trivial
  cases answer with
  | error reason => exact ready.settled
  | ok =>
    refine ⟨fun _ _ => nofun, fun answer _ => ?_⟩
    cases answer with
    | error reason => exact fun _ => rfl
    | ok deleted =>
      refine ⟨fun _ _ => nofun, fun answer works => ?_⟩
      cases answer with
      | error reason => cases works
      | ok secrets =>
        refine ⟨fun _ _ => nofun, fun answer works => ?_⟩
        cases answer with
        | error reason => cases works
        | ok existed =>
          intro other
          by_cases same : id = other
          · subst same
            simp [deleting, lately, deletesRow, removesKey]
          · simp [deleting, lately, deletesRow, removesKey, same]

theorem program_behaves (job : Job) :
    Behaves (job.program crates) (fun _ later => Settled later) [] := by
  cases job with
  | idle => exact ready_nil.settled
  | pair form => exact (pair_behaves form).mono fun _ _ => Ready.settled
  | setGossip id form =>
    exact (setGossip_behaves id form).mono fun _ _ => Ready.settled
  | delete id => exact delete_behaves id
  | returnHalf callerId request =>
    exact (returnHalf_behaves callerId request).bind
      fun _ _ => Ready.settled
  | importPeers entries =>
    exact (importPeers_behaves entries).bind fun _ _ => Ready.settled

end Programs

section Runs

variable {crates : Crates} {world : World} {jobs : Nat → Job}
variable {trace : List Event}
variable {reached : Process.Pool Nat World Call Answer Response}

theorem Covered.of_run (start : NoOrphans world)
    (run : Process.Run perform Unbroken (pool crates world jobs) trace
      reached) : Covered ⟨reached.world, trace⟩ := by
  induction run with
  | start => exact ⟨fun id held => .inl (start id held), fun _ _ => nofun⟩
  | @step past pool thread request next answer after run waiting meets
      performed ih =>
      have along := run.along (fun _ _ _ _ meets _ => meets.1)
        (program_behaves (jobs thread))
      rw [waiting] at along
      exact ih.step ⟨performed, meets, along.1⟩

/-- In every run in which the vault works and no removal of a key comes between
the two steps of a writer, once all have finished the vault holds the keys of
friends that are there only. -/
theorem no_orphan_key (start : NoOrphans world)
    (run : Process.Run perform Unbroken (pool crates world jobs) trace
      reached)
    (finished : ∀ thread, ∃ response, reached.threads thread = .done response) :
    NoOrphans reached.world := by
  intro id held
  rcases (Covered.of_run start run).keys id held with there | ⟨thread, under⟩
  · exact there
  · obtain ⟨response, finish⟩ := finished thread
    have settled := run.along (fun _ _ _ _ meets _ => meets.1)
      (program_behaves (jobs thread))
    rw [finish] at settled
    have settledId := settled id
    rw [under] at settledId
    cases settledId

end Runs

/-- Alex's key is edited while Alex is deleted. -/
def editing : Nat → Job
  | 0 => .setGossip 1 ⟨"http://alex.example", "alex-key", false⟩
  | 1 => .delete 1
  | _ => .idle

def seesRow : List Event :=
  [⟨0, .openStore, .ok ()⟩,
    ⟨0, .gossip (.setPeerGossipUrl 1 (some "http://alex.example/")),
      .ok true⟩]

def storesKey : List Event :=
  [⟨0, .gossip .openVault, .ok []⟩,
    ⟨0, .gossip (.vaultPut "peer.gossip.1" "alex-key"), .ok ()⟩]

def deletesAlex (secrets : Gossip.Secrets) : List Event :=
  [⟨1, .openStore, .ok ()⟩, ⟨1, .gossip (.deletePeer 1), .ok true⟩,
    ⟨1, .gossip .openVault, .ok secrets⟩,
    ⟨1, .vaultRemove "peer.gossip.1", .ok (secrets.holds "peer.gossip.1")⟩]

/-- How the two requests end, whether Alex has a key and whether Alex is
there. -/
def alexView (pool : Process.Pool Nat World Call Answer Response) :
    Option Response × Option Response × Bool × Bool :=
  ((pool.threads 0).result?, (pool.threads 1).result?,
    pool.world.secrets.holds "peer.gossip.1",
    (pool.world.peers.row? 1).isSome)

/-- The executable reading of `Unbroken`, where only Alex's key is stored. -/
def unbroken (moment : Moment) (event : Event) : Bool :=
  vaultWorks event.request event.answer &&
    match event.request with
    | .gossip (.vaultPut key _) =>
      key = peerGossipKey 1 && sinceChecked event.thread 1 moment.past
    | _ => true

theorem unbroken_of_check (moment : Moment) (event : Event)
    (passed : unbroken moment event = true) : Unbroken moment event := by
  obtain ⟨works, rest⟩ := Bool.and_eq_true_iff.mp passed
  refine ⟨works, fun id value puts _ => ?_⟩
  rw [puts] at rest
  obtain ⟨same, seen⟩ := Bool.and_eq_true_iff.mp rest
  cases Gossip.peerGossipKey_injective (of_decide_eq_true same)
  exact seen

theorem noOrphans_alexWorld : NoOrphans alexWorld :=
  fun _ held => nomatch held

/-- The threads without a job have finished. -/
theorem finished_of_view {condition : Process.Condition Nat World Call Answer}
    {trace : List Event}
    {reached : Process.Pool Nat World Call Answer Response}
    (run : Process.Run perform condition (pool knownCrates alexWorld editing)
      trace reached)
    (own : ∀ event ∈ trace, event.thread < 2) {one other : Response}
    (first : (reached.threads 0).result? = some one)
    (second : (reached.threads 1).result? = some other) (thread : Nat) :
    ∃ response, reached.threads thread = .done response := by
  match thread with
  | 0 => exact ⟨one, Prog.eq_done_of_result? first⟩
  | 1 => exact ⟨other, Prog.eq_done_of_result? second⟩
  | thread + 2 =>
    refine ⟨.finished, run.untouched fun event member same => ?_⟩
    have := own event member
    omega

/-- The edit, then the deletion. -/
def editThenDelete : List Event :=
  seesRow ++ storesKey ++ deletesAlex [("peer.gossip.1", .ok "alex-key")]

theorem alex_leaves_no_key : ∃ reached,
    Process.Run perform Unbroken (pool knownCrates alexWorld editing)
      editThenDelete reached ∧ NoOrphans reached.world := by
  have replayed : (Process.replay perform unbroken []
      (pool knownCrates alexWorld editing) editThenDelete).map alexView =
        some (some (.redirect "/peers"), some (.redirect "/peers"), false,
          false) := by
    decide +kernel
  obtain ⟨reached, run, viewed⟩ :=
    Process.Run.exists_of_replay unbroken_of_check replayed
  simp only [alexView, Prod.mk.injEq] at viewed
  refine ⟨reached, run, no_orphan_key noOrphans_alexWorld run ?_⟩
  refine finished_of_view run ?_ viewed.1 viewed.2.1
  simp [editThenDelete, seesRow, storesKey, deletesAlex]

/-- The whole deletion between the two steps of the edit. -/
def deleteWithinEdit : List Event :=
  seesRow ++ deletesAlex [] ++ storesKey

/-- Every call succeeds and all have finished, and the key of a friend who is
not there stays in the vault. -/
theorem key_outlives_alex : NoOrphans alexWorld ∧ ∃ reached,
    Process.Run perform
        (fun _ event => failed event.request event.answer = false)
        (pool knownCrates alexWorld editing) deleteWithinEdit reached ∧
      (∀ thread, ∃ response, reached.threads thread = .done response) ∧
        ¬ NoOrphans reached.world := by
  have replayed : (Process.replay perform
      (fun _ event => !failed event.request event.answer) []
      (pool knownCrates alexWorld editing) deleteWithinEdit).map alexView =
        some (some (.redirect "/peers"), some (.redirect "/peers"), true,
          false) := by
    decide +kernel
  have checked : ∀ (moment : Moment) (event : Event),
      (!failed event.request event.answer) = true →
        failed event.request event.answer = false := by
    simp
  obtain ⟨reached, run, viewed⟩ :=
    Process.Run.exists_of_replay checked replayed
  simp only [alexView, Prod.mk.injEq] at viewed
  refine ⟨noOrphans_alexWorld, reached, run, ?_, fun sound => ?_⟩
  · refine finished_of_view run ?_ viewed.1 viewed.2.1
    simp [deleteWithinEdit, seesRow, storesKey, deletesAlex]
  · have there := sound 1 viewed.2.2.1
    rw [viewed.2.2.2] at there
    cases there

section Gone

variable {start reached : Process.Pool Nat World Call Answer Response}
variable {trace : List Event} {thread id : Nat}

theorem kept_ever_after (good : Option PeerRow → Prop)
    (stays : ∀ (write : Gossip.Write) row, good row → good (write.onRow id row))
    {event : Event}
    (made : ∀ world after,
      perform event.thread world event.request event.answer = some after →
        id < after.peers.nextId ∧ good (after.peers.row? id))
    (run : Process.Run perform .always start trace reached)
    (happened : event ∈ trace) : good (reached.world.peers.row? id) := by
  have kept : id < reached.world.peers.nextId ∧
      good (reached.world.peers.row? id) := by
    induction run with
    | start => cases happened
    | step _ _ _ performed ih =>
      rcases List.mem_append.mp happened with earlier | last
      · exact kept_of_performed good stays performed (ih earlier)
      · cases List.mem_singleton.mp last
        exact made _ _ performed
  exact kept.2

/-- Whatever runs at once, and whatever fails, nobody gets the id of a friend
who was deleted, so that a key left in the vault is nobody's. -/
theorem leftover_never_reattaches
    (run : Process.Run perform .always start trace reached)
    (deleted : ⟨thread, .gossip (.deletePeer id), .ok true⟩ ∈ trace) :
    ∀ row ∈ reached.world.peers.rows,
      peerGossipKey row.id ≠ peerGossipKey id := by
  have absent : reached.world.peers.row? id = none := by
    refine kept_ever_after (· = none) ?_ ?_ run deleted
    · rintro write row rfl
      cases write <;> simp [Gossip.Write.onRow]
    · intro world after performed
      obtain ⟨next, inner, rfl⟩ := perform_gossip performed
      obtain ⟨found, rfl⟩ := Gossip.of_guarded inner
      obtain ⟨row, there⟩ := Option.isSome_iff_exists.mp found.symm
      have given : id < world.peers.nextId := PeerTable.row?_lt_nextId there
      exact ⟨given, (PeerTable.row?_delete ..).trans (if_pos rfl)⟩
  intro row member same
  have there := PeerTable.row?_eq_some_iff.mpr
    ⟨member, Gossip.peerGossipKey_injective same⟩
  rw [absent] at there
  cases there

/-- Alex is edited and deleted, or edited and revoked, and then Sam is added. -/
def withSam (second : Program Response) :
    Process.Pool Nat World Call Answer Response where
  world := alexWorld
  threads
    | 0 => (editing 0).program knownCrates
    | 1 => second
    | _ => (createPeer knownCrates "Sam" "sam-key" .all).bind fun _ =>
        Prog.done Response.finished

def addsSam : List Event :=
  [⟨2, .gossip .nowEpoch, (200 : Int)⟩,
    ⟨2, .createPeer "Sam" "hash of sam-key" .all 200,
      .ok ⟨2, "Sam", 200, none, none, none, "hash of sam-key"⟩⟩]

/-- The key stored while Alex was deleted stays, and is not Sam's, who is added
afterwards. -/
theorem alex_key_is_nobodys : ∃ reached,
    Process.Run perform .always (withSam (delete 1))
        (deleteWithinEdit ++ addsSam) reached ∧
      reached.world.secrets.holds "peer.gossip.1" = true ∧
        reached.world.peers.rows.map (·.label) = ["Sam"] ∧
          ∀ row ∈ reached.world.peers.rows,
            peerGossipKey row.id ≠ peerGossipKey 1 := by
  have replayed : (Process.replay perform (fun _ _ => true) []
      (withSam (delete 1)) (deleteWithinEdit ++ addsSam)).map
        (fun reached => (reached.world.secrets.holds "peer.gossip.1",
          reached.world.peers.rows.map (·.label))) = some (true, ["Sam"]) := by
    decide +kernel
  obtain ⟨reached, run, seen⟩ :=
    Process.Run.exists_of_replay (fun _ _ _ => trivial) replayed
  obtain ⟨kept, left⟩ := Prod.mk.inj seen
  have deleted : ⟨1, .gossip (.deletePeer 1), .ok true⟩ ∈
      deleteWithinEdit ++ addsSam := by
    simp [deleteWithinEdit, deletesAlex]
  exact ⟨reached, run, kept, left, leftover_never_reattaches run deleted⟩

/-- Whatever runs at once, and whatever fails, a friend whose key was revoked
is revoked for good. -/
theorem revoked_for_good
    (run : Process.Run perform .always start trace reached) {now : Int}
    (revoked : ⟨thread, .gossip (.revokePeer id now), .ok true⟩ ∈ trace) :
    ∀ row ∈ reached.world.peers.rows, row.id = id → row.isRevoked := by
  have ended : (reached.world.peers.row? id).all (·.isRevoked) := by
    refine kept_ever_after (·.all (·.isRevoked)) ?_ ?_ run revoked
    · intro write row ended
      cases write with
      | bind | record | url =>
        simp only [Gossip.Write.onRow]
        split
        · cases row <;> exact ended
        · exact ended
      | revoke | delete =>
        simp only [Gossip.Write.onRow]
        split
        · cases row <;> rfl
        · exact ended
      | endpoint | create | secret => exact ended
    · intro world after performed
      obtain ⟨next, inner, rfl⟩ := perform_gossip performed
      obtain ⟨found, rfl⟩ := Gossip.of_guarded inner
      obtain ⟨row, there, -⟩ := (Option.any_eq_true ..).mp found.symm
      have given : id < world.peers.nextId := PeerTable.row?_lt_nextId there
      use given
      simp only [World.peers, if_true, Gossip.World.revokePeer,
        PeerTable.row?_update, there]
      rfl
  intro row member same
  rwa [PeerTable.row?_eq_some_iff.mpr ⟨member, same⟩] at ended

end Gone

/-- Alex's key is revoked, and then the edit goes on and Sam is added. -/
def revokesWithinEdit : List Event :=
  seesRow ++ [⟨1, .gossip .nowEpoch, (100 : Int)⟩,
    ⟨1, .gossip (.revokePeer 1 100), .ok true⟩] ++ storesKey ++ addsSam

theorem alex_stays_revoked : ∃ reached,
    Process.Run perform .always
        (withSam ((gossip (Gossip.revokePeer 1)).bind fun _ =>
          Prog.done Response.finished)) revokesWithinEdit reached ∧
      reached.world.peers.rows.map (·.id) = [1, 2] ∧
        ∀ row ∈ reached.world.peers.rows, row.id = 1 → row.isRevoked := by
  have replayed : (Process.replay perform (fun _ _ => true) []
      (withSam ((gossip (Gossip.revokePeer 1)).bind fun _ =>
        Prog.done Response.finished)) revokesWithinEdit).map
          (·.world.peers.rows.map (·.id)) = some [1, 2] := by
    decide +kernel
  obtain ⟨reached, run, left⟩ :=
    Process.Run.exists_of_replay (fun _ _ _ => trivial) replayed
  have revoked : ⟨1, .gossip (.revokePeer 1 100), .ok true⟩ ∈
      revokesWithinEdit := by
    simp [revokesWithinEdit]
  exact ⟨reached, run, left, revoked_for_good run revoked⟩

end Friends

end Sharerr
