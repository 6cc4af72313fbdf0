import Sharerr.Gossip.Rules

/-!
# Pairing fills an empty half once

`pair` reads the row and the vault once and then writes the key and the
address, in two stores and with no lock across them.  Two calls that both read
an empty half both go on to write it.

Where a call's key still meets an empty slot, the first key that is stored
shuts out every other call: one call at most answers 204, and the key and the
address are both its own.
-/

namespace Sharerr

namespace Gossip

open Process

/-- The key an event stores for `peerId`. -/
def keyWrite (peerId : Nat) (event : Event Nat Call Answer) :
    Option String :=
  match written event.request event.answer with
  | some (.secret key value) =>
    if key = peerGossipKey peerId then some value else none
  | _ => none

/-- The address an event stores for `peerId`, blank included. -/
def urlWrite (peerId : Nat) (event : Event Nat Call Answer) :
    Option (Option String) :=
  match written event.request event.answer with
  | some (.url target address) =>
    if target = peerId then some address else none
  | _ => none

def isDelete (peerId : Nat) (event : Event Nat Call Answer) : Bool :=
  match written event.request event.answer with
  | some (.delete target) => target = peerId
  | _ => false

/-- Who made the last write of a kind, and what it was. -/
def lastWrite {Value : Type} (write : Event Nat Call Answer → Option Value)
    (past : List (Event Nat Call Answer)) : Option (Nat × Value) :=
  past.foldl
    (fun last event => ((write event).map fun value =>
      (event.thread, value)).or last)
    none

theorem lastWrite_append {Value : Type}
    (write : Event Nat Call Answer → Option Value)
    (past : List (Event Nat Call Answer)) (event : Event Nat Call Answer) :
    lastWrite write (past ++ [event]) =
      ((write event).map fun value => (event.thread, value)).or
        (lastWrite write past) := by
  simp [lastWrite, List.foldl_append]

/-- Whether the vault's file has a record for the key of `peerId`. -/
def holdsKey (peerId : Nat) (world : World) : Bool :=
  world.secrets.any fun entry => entry.1 = peerGossipKey peerId

/-- The steps on which pairing is right: a key is stored for `peerId` only
where none has been stored since the check. -/
def meetsEmptySlot (peerId : Nat) (moment : Moment Nat World Call Answer)
    (event : Event Nat Call Answer) : Bool :=
  (keyWrite peerId event).isNone || !holdsKey peerId moment.world

def MeetsEmptySlot (peerId : Nat) : Condition Nat World Call Answer :=
  fun moment event => meetsEmptySlot peerId moment event = true

theorem holdsKey_put_same (peerId : Nat) (world : World) (value : String) :
    holdsKey peerId { world with
      secrets := world.secrets.put (peerGossipKey peerId) value } = true := by
  simp [holdsKey, Secrets.put]

theorem holdsKey_put_other {peerId : Nat} {key : String}
    (different : key ≠ peerGossipKey peerId) (world : World)
    (value : String) :
    holdsKey peerId { world with secrets := world.secrets.put key value } =
      holdsKey peerId world := by
  simp only [holdsKey, Secrets.put, List.any_append, List.any_filter,
    List.any_cons, List.any_nil, different, decide_false, Bool.or_false]
  congr 1
  funext entry
  by_cases named : entry.1 = peerGossipKey peerId
  · simp [named, Ne.symm different]
  · simp [named]

/-- What holds at every moment: the last key stored is the one in the vault,
the last address the one in the row, and it was stored by whoever stored the
key. -/
structure Outbound (peerId : Nat) (moment : Moment Nat World Call Answer) :
    Prop where
  address : ∃ row, moment.world.peers.row? peerId = some row ∧
    row.gossipUrl =
      (lastWrite (urlWrite peerId) moment.past).bind (·.2)
  slot : holdsKey peerId moment.world =
    (lastWrite (keyWrite peerId) moment.past).isSome
  key : ∀ writer value,
    lastWrite (keyWrite peerId) moment.past = some (writer, value) →
      moment.world.secrets.get (peerGossipKey peerId) = .ok (some value)
  owner : ∀ writer url,
    lastWrite (urlWrite peerId) moment.past = some (writer, url) →
      ∃ value,
        lastWrite (keyWrite peerId) moment.past = some (writer, value)

/-- Nobody deletes the peer, and an address is stored by whoever stored the
key. -/
def KeepsOutbound (peerId thread : Nat)
    (before : Moment Nat World Call Answer)
    (event : Event Nat Call Answer) : Prop :=
  isDelete peerId event = false ∧
    ∀ url, urlWrite peerId event = some url →
      ∃ value,
        lastWrite (keyWrite peerId) before.past = some (thread, value)

variable {request : Call} {answer : Answer request}
  {after before : Moment Nat World Call Answer} {crates : Crates}

theorem address_performed {peerId thread : Nat} {world after : World}
    {row : PeerRow}
    (performed : perform thread world request answer = some after)
    (found : world.peers.row? peerId = some row)
    (stays : isDelete peerId ⟨thread, request, answer⟩ = false) :
    ∃ row', after.peers.row? peerId = some row' ∧
      row'.gossipUrl =
        (urlWrite peerId ⟨thread, request, answer⟩).getD row.gossipUrl := by
  rcases perform_cases performed with ⟨quiet, rfl⟩ | ⟨write, wrote, -, rfl⟩
  · exact ⟨row, found, by simp [urlWrite, quiet]⟩
  · rw [write.row?_apply (PeerTable.row?_lt_nextId found), found]
    simp only [urlWrite, wrote]
    cases write with
    | url target address =>
      by_cases same : peerId = target
      · exact ⟨_, by simp [Write.onRow, same]; rfl, by simp [same]⟩
      · exact ⟨row, by simp [Write.onRow, same], by simp [Ne.symm same]⟩
    | delete target =>
      have different : target ≠ peerId := by
        simpa [isDelete, wrote] using stays
      exact ⟨row, by simp [Write.onRow, Ne.symm different], rfl⟩
    | bind | record | revoke =>
      simp only [Write.onRow]
      split
      · exact ⟨_, rfl, rfl⟩
      · exact ⟨row, rfl, rfl⟩
    | endpoint | create | secret => exact ⟨row, rfl, rfl⟩

theorem key_performed (peerId : Nat) {thread : Nat} {world after : World}
    (performed : perform thread world request answer = some after) :
    match keyWrite peerId ⟨thread, request, answer⟩ with
    | some value => holdsKey peerId after = true ∧
        after.secrets.get (peerGossipKey peerId) = .ok (some value)
    | none => holdsKey peerId after = holdsKey peerId world ∧
        after.secrets.get (peerGossipKey peerId) =
          world.secrets.get (peerGossipKey peerId) := by
  rcases perform_cases performed with ⟨quiet, rfl⟩ | ⟨write, wrote, -, rfl⟩
  · simp [keyWrite, quiet]
  · simp only [keyWrite, wrote]
    cases write with
    | secret key value =>
      by_cases same : key = peerGossipKey peerId
      · subst same
        simp only [if_true]
        exact ⟨holdsKey_put_same .., Secrets.get_put_same ..⟩
      · simp only [same, if_false]
        exact ⟨holdsKey_put_other same ..,
          Secrets.get_put_other _ (Ne.symm same) _⟩
    | create label keyHash now =>
      simp only [Write.apply]
      split <;> exact ⟨rfl, rfl⟩
    | bind | endpoint | record | url | revoke | delete => exact ⟨rfl, rfl⟩

theorem keyWrite_eq_none_of_urlWrite {peerId : Nat}
    {event : Event Nat Call Answer} {url : Option String}
    (wrote : urlWrite peerId event = some url) :
    keyWrite peerId event = none := by
  unfold urlWrite at wrote
  unfold keyWrite
  split at wrote
  · rename_i same
    simp [same]
  · cases wrote

/-- A key that meets an empty slot is the first one. -/
theorem Outbound.first {peerId : Nat} {event : Event Nat Call Answer}
    {moment : Moment Nat World Call Answer} {value : String}
    (inv : Outbound peerId moment) (meets : MeetsEmptySlot peerId moment event)
    (wrote : keyWrite peerId event = some value) :
    lastWrite (keyWrite peerId) moment.past = none := by
  have empty : holdsKey peerId moment.world = false := by
    simpa [MeetsEmptySlot, meetsEmptySlot, wrote] using meets
  rw [inv.slot] at empty
  simpa using empty

theorem Outbound.step {peerId thread : Nat} (inv : Outbound peerId before)
    (performed : perform thread before.world request answer = some after.world)
    (past : after.past = before.past ++ [⟨thread, request, answer⟩])
    (meets : MeetsEmptySlot peerId before ⟨thread, request, answer⟩)
    (keeps : KeepsOutbound peerId thread before ⟨thread, request, answer⟩) :
    Outbound peerId after := by
  obtain ⟨row, found, address⟩ := inv.address
  obtain ⟨row', found', address'⟩ :=
    address_performed performed found keeps.1
  have stored := key_performed peerId performed
  refine ⟨⟨row', found', ?_⟩, ?_, ?_, ?_⟩
  · rw [address', past, lastWrite_append]
    cases urlWrite peerId ⟨thread, request, answer⟩ with
    | none => simpa using address
    | some url => rfl
  · rw [past, lastWrite_append]
    cases wrote : keyWrite peerId ⟨thread, request, answer⟩ with
    | none =>
      rw [wrote] at stored
      simpa using stored.1.trans inv.slot
    | some value =>
      rw [wrote] at stored
      simpa using stored.1
  · intro writer value last
    rw [past, lastWrite_append] at last
    cases wrote : keyWrite peerId ⟨thread, request, answer⟩ with
    | none =>
      rw [wrote] at stored last
      exact stored.2.trans (inv.key writer value last)
    | some new =>
      rw [wrote] at stored last
      cases last
      exact stored.2
  · intro writer url last
    rw [past, lastWrite_append] at last ⊢
    cases wroteUrl : urlWrite peerId ⟨thread, request, answer⟩ with
    | some address =>
      rw [wroteUrl] at last
      cases last
      rw [keyWrite_eq_none_of_urlWrite wroteUrl]
      exact keeps.2 url wroteUrl
    | none =>
      rw [wroteUrl] at last
      obtain ⟨value, owned⟩ := inv.owner writer url last
      cases wroteKey : keyWrite peerId ⟨thread, request, answer⟩ with
      | none => exact ⟨value, owned⟩
      | some new =>
        rw [inv.first meets wroteKey] at owned
        cases owned

def pairingProtocol (peerId : Nat) : Protocol Nat World Call Answer where
  perform := perform
  condition := MeetsEmptySlot peerId
  invariant := Outbound peerId
  guarantee thread before after := ∀ event,
    after.past = before.past ++ [event] →
      KeepsOutbound peerId thread before event

/-- `thread` stored the key. -/
def KeyIs (peerId thread : Nat) (key : String)
    (moment : Moment Nat World Call Answer) : Prop :=
  lastWrite (keyWrite peerId) moment.past = some (thread, key)

/-- `thread` stored the key and the address. -/
def HalfIs (peerId thread : Nat) (key : String) (url : Option String)
    (moment : Moment Nat World Call Answer) : Prop :=
  KeyIs peerId thread key moment ∧
    lastWrite (urlWrite peerId) moment.past = some (thread, url)

variable {peerId thread : Nat} {key : String} {url : Option String}

theorem KeyIs.later {actor : Nat} (mine : KeyIs peerId thread key before)
    (performed : Performed (pairingProtocol peerId) actor before request
      answer after) : KeyIs peerId thread key after := by
  rw [KeyIs, performed.past, lastWrite_append]
  cases wrote : keyWrite peerId ⟨actor, request, answer⟩ with
  | none => exact mine
  | some value =>
    have first := performed.holds.first performed.meets wrote
    rw [KeyIs, first] at mine
    cases mine

theorem keyIs_stable : (pairingProtocol peerId).Stable thread
    (KeyIs peerId thread key) :=
  .of_performed fun _ _ _ _ _ performed mine => mine.later performed

theorem halfIs_stable : (pairingProtocol peerId).Stable thread
    (HalfIs peerId thread key url) := by
  rintro before after ⟨mine, address⟩ ⟨other, different, keeps, -, request,
    answer, performed⟩
  refine ⟨mine.later performed, ?_⟩
  rw [performed.past, lastWrite_append]
  cases wrote : urlWrite peerId ⟨other, request, answer⟩ with
  | none => exact address
  | some value =>
    obtain ⟨value, others⟩ := (keeps _ performed.past).2 value wrote
    rw [KeyIs, others] at mine
    cases mine
    exact absurd rfl different

/-- The calls that have nothing to do with the half of `peerId`. -/
def Elsewhere (peerId : Nat) : Call → Prop
  | .vaultPut key _ => key ≠ peerGossipKey peerId
  | .setPeerGossipUrl id _ => id ≠ peerId
  | .deletePeer id => id ≠ peerId
  | _ => True

theorem Elsewhere.quiet (elsewhere : Elsewhere peerId request) (thread : Nat)
    (answer : Answer request) :
    keyWrite peerId ⟨thread, request, answer⟩ = none ∧
      urlWrite peerId ⟨thread, request, answer⟩ = none ∧
        isDelete peerId ⟨thread, request, answer⟩ = false := by
  simp only [keyWrite, urlWrite, isDelete]
  cases wrote : written request answer with
  | none => simp
  | some write =>
    unfold written at wrote
    split at wrote <;> cases wrote <;>
      simp only [Elsewhere, ne_eq] at elsewhere <;> simp [elsewhere]

/-- A call that keeps the half as it should keeps the invariant. -/
theorem KeepsOutbound.performed
    (keeps : KeepsOutbound peerId thread before ⟨thread, request, answer⟩)
    (performed : Performed (pairingProtocol peerId) thread before request
      answer after) :
    Outbound peerId after ∧
      (pairingProtocol peerId).guarantee thread before after := by
  refine ⟨performed.holds.step performed.performed performed.past
    performed.meets keeps, ?_⟩
  intro event past
  rw [performed.past] at past
  cases List.singleton_inj.mp (List.append_cancel_left past)
  exact keeps

theorem Elsewhere.keeps (elsewhere : Elsewhere peerId request)
    (answer : Answer request) (before : Moment Nat World Call Answer) :
    KeepsOutbound peerId thread before ⟨thread, request, answer⟩ := by
  obtain ⟨-, noUrl, stays⟩ := elsewhere.quiet thread answer
  refine ⟨stays, ?_⟩
  intro url wrote
  rw [noUrl] at wrote
  cases wrote

theorem HalfIs.later (elsewhere : Elsewhere peerId request)
    (performed : Performed (pairingProtocol peerId) thread before request
      answer after) (half : HalfIs peerId thread key url before) :
    HalfIs peerId thread key url after := by
  obtain ⟨-, noUrl, -⟩ := elsewhere.quiet thread answer
  refine ⟨half.1.later performed, ?_⟩
  rw [performed.past, lastWrite_append, noUrl]
  exact half.2

theorem safe_elsewhere {α : Type} {program : Program α}
    (only : program.Only (Elsewhere peerId))
    (moment : Moment Nat World Call Answer) :
    Safe (pairingProtocol peerId) thread (fun _ _ => True) program
      moment := by
  apply Safe.of_only always_stable _ only trivial
  intro before request answer after elsewhere _ performed
  obtain ⟨holds, kept⟩ := (elsewhere.keeps answer before).performed performed
  exact ⟨holds, kept, trivial⟩

theorem elsewhere_of_ingestCall (ingests : IngestCall request) :
    Elsewhere peerId request := by
  cases request <;> trivial

theorem safe_finishPair {peer : Peer} {request : PairRequest}
    {moment : Moment Nat World Call Answer}
    (half : HalfIs peerId thread key url moment) :
    Safe (pairingProtocol peerId) thread
      (fun _ after => HalfIs peerId thread key url after)
      (finishPair crates peer request) moment := by
  have only : (finishPair crates peer request).Only IngestCall := by
    unfold finishPair
    cases request.record with
    | none => trivial
    | some record =>
      exact (ingest_only peer.id [record]).bind fun _ => trivial
  apply Safe.of_only halfIs_stable _ only half
  intro before request answer after ingests half performed
  have elsewhere : Elsewhere peerId request :=
    elsewhere_of_ingestCall ingests
  obtain ⟨holds, kept⟩ := (elsewhere.keeps answer before).performed performed
  exact ⟨holds, kept, half.later elsewhere performed⟩

/-- The promise of a 204: the key and the address are those of the
request. -/
def Answered (crates : Crates) (peerId thread : Nat) (request : PairRequest)
    (response : Response) (moment : Moment Nat World Call Answer) : Prop :=
  response.status = .noContent →
    ∃ url, gossipUrl crates (some request.url) = .ok url ∧
      HalfIs peerId thread request.key url moment

theorem safe_storeOutbound_half {peer : Peer} (request : PairRequest)
    (named : peer.id = peerId) (moment : Moment Nat World Call Answer) :
    Safe (pairingProtocol peerId) thread
      (Answered crates peerId thread request)
      (storeOutbound crates peer request) moment := by
  apply Safe.call always_stable trivial
  intro before answer after _ performed
  have keeps : KeepsOutbound peerId thread before ⟨thread,
      .vaultPut (peerGossipKey peer.id) request.key, answer⟩ := by
    cases answer <;> exact ⟨rfl, by simp [urlWrite, written]⟩
  obtain ⟨holds, kept⟩ := keeps.performed performed
  refine ⟨holds, kept, ?_⟩
  cases answer with
  | error => exact fun status => absurd status (by simp)
  | ok =>
    have mine : KeyIs peerId thread request.key after := by
      rw [KeyIs, performed.past, lastWrite_append]
      simp [keyWrite, written, named]
    cases normal : gossipUrl crates (some request.url) with
    | error => exact fun status => absurd status (by simp)
    | ok url =>
      apply Safe.call keyIs_stable mine
      intro before answer after mine performed
      have keeps : KeepsOutbound peerId thread before
          ⟨thread, .setPeerGossipUrl peer.id url, answer⟩ := by
        refine ⟨?_, fun _ _ => ⟨request.key, mine⟩⟩
        cases answer <;> rfl
      obtain ⟨holds, kept⟩ := keeps.performed performed
      refine ⟨holds, kept, ?_⟩
      match answer, performed with
      | .error _, _ => exact fun status => absurd status (by simp)
      | .ok false, _ => exact fun status => absurd status (by simp)
      | .ok true, performed =>
        have half : HalfIs peerId thread request.key url after := by
          refine ⟨mine.later performed, ?_⟩
          rw [performed.past, lastWrite_append]
          simp [urlWrite, written, named]
        exact (safe_finishPair half).mono
          fun _ _ half _ => ⟨url, normal, half⟩

theorem safe_pair_half (crates : Crates) (callerId : Nat)
    (request : PairRequest) (moment : Moment Nat World Call Answer) :
    Safe (pairingProtocol peerId) thread
      (fun response after => callerId = peerId →
        Answered crates peerId thread request response after)
      (pair crates callerId request) moment := by
  have refused : ∀ (status : Status) (body : String)
      (moment : Moment Nat World Call Answer), status ≠ .noContent →
        callerId = peerId →
          Answered crates peerId thread request ⟨status, body⟩ moment :=
    fun _ _ _ different _ same => absurd same different
  have plain : Elsewhere peerId (.peer callerId) := trivial
  apply Safe.call always_stable trivial
  intro before answer after _ performed
  obtain ⟨holds, kept⟩ := (plain.keeps answer before).performed performed
  refine ⟨holds, kept, ?_⟩
  match answer, performed with
  | .error _, _ => exact refused _ _ _ (by simp)
  | .ok none, _ => exact refused _ _ _ (by simp)
  | .ok (some peer), performed =>
    have named : peer.id = callerId := by
      obtain ⟨same, -⟩ := of_guarded performed.performed
      obtain ⟨row, found, rfl⟩ := Option.map_eq_some_iff.mp same.symm
      exact (PeerTable.row?_eq_some_iff.mp found).2
    simp only
    cases refusing : refusal crates peer request with
    | some response =>
      obtain ⟨status, body⟩ := response
      apply refused
      rintro rfl
      exact refusal_ne_noContent refusing
    | none =>
      have plain : Elsewhere peerId .openVault := trivial
      apply Safe.call always_stable trivial
      intro before answer after _ performed
      obtain ⟨holds, kept⟩ :=
        (plain.keeps answer before).performed performed
      refine ⟨holds, kept, ?_⟩
      cases answer with
      | error => exact refused _ _ _ (by simp)
      | ok secrets =>
        simp only
        split
        · exact refused _ _ _ (by simp)
        · by_cases same : callerId = peerId
          · exact (safe_storeOutbound_half request
              (named.trans same) after).mono
              fun _ _ answered _ => answered
          · have other : peer.id ≠ peerId := named ▸ same
            refine (safe_elsewhere (storeOutbound_only ?_ ?_ ?_
              request) after).mono fun _ _ _ here => absurd here same
            · exact fun _ => elsewhere_of_ingestCall
            · exact fun _ => other
            · exact fun _ sameKey =>
                other (peerGossipKey_injective sameKey)

/-- The jobs that leave the half of `peerId` to `pair`. -/
def Job.LeavesHalf (peerId : Nat) : Job → Prop
  | .applyInvite peer _ => peer.id ≠ peerId
  | .deletePeer id => id ≠ peerId
  | _ => True

/-- The promise of a job that answers a pairing call with 204. -/
def Promised (crates : Crates) (peerId thread : Nat) (job : Job)
    (outcome : Outcome) (moment : Moment Nat World Call Answer) : Prop :=
  ∀ request response, job = .pair peerId request →
    outcome = .response response →
      Answered crates peerId thread request response moment

theorem promised_stable {job : Job} {outcome : Outcome} :
    (pairingProtocol peerId).Stable thread
      (Promised crates peerId thread job outcome) := by
  intro before after promised others request response asked answered status
  obtain ⟨url, normal, half⟩ :=
    promised request response asked answered status
  exact ⟨url, normal, halfIs_stable before after half others⟩

theorem safe_program_half {job : Job} (leaves : job.LeavesHalf peerId)
    (moment : Moment Nat World Call Answer) :
    Safe (pairingProtocol peerId) thread
      (Promised crates peerId thread job) (job.program crates) moment := by
  have quiet : ∀ program : Program Outcome, program.Only (Elsewhere peerId) →
      (∀ request, job ≠ .pair peerId request) →
        Safe (pairingProtocol peerId) thread
          (Promised crates peerId thread job) program moment := by
    intro program only other
    exact (safe_elsewhere only moment).mono
      fun _ _ _ request _ asked => absurd asked (other request)
  cases job with
  | pair callerId request =>
    apply Safe.bind (safe_pair_half crates callerId request moment)
    rintro response moment answered request' response' ⟨⟩ ⟨⟩
    exact answered rfl
  | ingest presenterId records =>
    apply quiet
    · exact ((ingest_only presenterId records).mono
        fun _ => elsewhere_of_ingestCall).bind fun _ => trivial
    · simp
  | lookupQuiet urls index =>
    apply quiet
    · refine ((lookupQuiet_only urls index).mono ?_).bind fun _ => trivial
      intro request lookup
      cases request <;> trivial
    · simp
  | applyInvite peer invite =>
    apply quiet
    · exact (applyInvite_only (by intros; trivial) (fun _ => leaves)
        (fun _ same => leaves (peerGossipKey_injective same))
        invite).bind fun _ => trivial
    · simp
  | recordSighting peerId kind addr =>
    apply quiet
    · exact ⟨trivial, fun _ => ⟨trivial, fun _ => ⟨trivial, fun _ =>
        trivial⟩⟩⟩
    · simp
  | restoreSighting peerId addr =>
    apply quiet
    · exact ⟨trivial, fun _ => ⟨trivial, fun _ => trivial⟩⟩
    · simp
  | createPeer label keyHash =>
    apply quiet
    · refine ⟨trivial, fun _ => ⟨trivial, ?_⟩⟩
      rintro (_ | _) <;> trivial
    · simp
  | revokePeer id =>
    apply quiet
    · exact ⟨trivial, fun _ => ⟨trivial, fun _ => trivial⟩⟩
    · simp
  | deletePeer id =>
    apply quiet
    · exact ⟨leaves, fun _ => trivial⟩
    · simp

/-- In every interleaving in which a key always meets an empty slot, at most
one pairing call of a peer answers 204, and the key and the address that are
stored are both those of its request. -/
theorem pair_at_most_once {crates : Crates} {world : World}
    {jobs : Nat → Job} {peerId : Nat} {row : PeerRow}
    {trace : List (Event Nat Call Answer)}
    {reached : Pool Nat World Call Answer Outcome}
    (known : world.peers.row? peerId = some row)
    (noAddress : row.gossipUrl = none)
    (noKey : holdsKey peerId world = false)
    (leaves : ∀ thread, (jobs thread).LeavesHalf peerId)
    (run : Run perform (MeetsEmptySlot peerId) (pool crates world jobs) trace
      reached)
    {thread : Nat} {request : PairRequest} {body : String}
    (asked : jobs thread = .pair peerId request)
    (answered : reached.threads thread =
      .done (.response ⟨.noContent, body⟩)) :
    (∀ other otherRequest otherBody,
      jobs other = .pair peerId otherRequest →
        reached.threads other =
            .done (.response ⟨.noContent, otherBody⟩) → other = thread) ∧
    ∃ row url, reached.world.peers.row? peerId = some row ∧
      gossipUrl crates (some request.url) = .ok url ∧ row.gossipUrl = url ∧
        reached.world.secrets.get (peerGossipKey peerId) =
          .ok (some request.key) := by
  have begins : Outbound peerId ⟨world, []⟩ :=
    ⟨⟨row, known, noAddress⟩, noKey, by simp [lastWrite], by
      simp [lastWrite]⟩
  have sound : Sound (pairingProtocol peerId)
      (fun thread => Promised crates peerId thread (jobs thread)) trace
      reached :=
    Run.sound (fun _ _ => promised_stable) run
      ⟨begins, fun thread => safe_program_half (leaves thread) _⟩
  obtain ⟨url, normal, mine, address⟩ :=
    sound.finished answered request _ asked rfl rfl
  refine ⟨?_, ?_⟩
  · intro other otherRequest otherBody otherAsked otherAnswered
    obtain ⟨-, -, others, -⟩ :=
      sound.finished otherAnswered otherRequest _ otherAsked rfl rfl
    rw [KeyIs, mine] at others
    exact (Prod.mk.inj (Option.some.inj others)).1.symm
  · obtain ⟨row, found, stored⟩ := sound.holds.address
    refine ⟨row, url, found, normal, ?_, sound.holds.key _ _ mine⟩
    rw [stored, address]
    rfl

/-- Sam is added; two pairing calls under his key arrive. -/
def pairJobs : Nat → Job
  | 0 => .createPeer "Sam" "sam-hash"
  | 1 => .pair 1 ⟨"http://one", "key-one", none⟩
  | _ => .pair 1 ⟨"http://two", "key-two", none⟩

def sam : Peer := freshPeer 1 "Sam" "sam-hash"

def samWorld : World :=
  match PeerTable.empty.insert "Sam" "sam-hash" 100 with
  | some (_, peers) => { World.empty with peers }
  | none => .empty

/-- A call up to its check: nothing is stored. -/
def checks (thread : Nat) : List (Event Nat Call Answer) :=
  [⟨thread, .peer 1, .ok (some sam)⟩, ⟨thread, .openVault, .ok []⟩]

def putsKey (thread : Nat) (key : String) : Event Nat Call Answer :=
  ⟨thread, .vaultPut "peer.gossip.1" key, .ok ()⟩

def setsUrl (thread : Nat) (url : String) : Event Nat Call Answer :=
  ⟨thread, .setPeerGossipUrl 1 (some url), .ok true⟩

/-- Sam's half once the first call has filled it. -/
def pairedSam : Peer :=
  { sam with gossipUrl := some "http://one" }

/-- The first call goes through, and the second finds the half filled. -/
def oneThenOther : List (Event Nat Call Answer) :=
  checks 1 ++ [putsKey 1 "key-one", setsUrl 1 "http://one",
    ⟨2, .peer 1, .ok (some pairedSam)⟩,
    ⟨2, .openVault, .ok [("peer.gossip.1", .ok "key-one")]⟩]

/-- The second call is refused: only the first answers 204, and the half is
what it asked for. -/
theorem pair_once_refused :
    ∃ reached, Run perform (MeetsEmptySlot 1)
        (pool plainCrates samWorld pairJobs) oneThenOther reached ∧
      (reached.threads 2).result?.isSome = true ∧
      (∀ other otherRequest otherBody,
        pairJobs other = .pair 1 otherRequest →
          reached.threads other =
              .done (.response ⟨.noContent, otherBody⟩) → other = 1) ∧
      ∃ row url, reached.world.peers.row? 1 = some row ∧
        gossipUrl plainCrates (some "http://one") = .ok url ∧
          row.gossipUrl = url ∧
            reached.world.secrets.get (peerGossipKey 1) =
              .ok (some "key-one") := by
  have replayed : (replay perform (meetsEmptySlot 1) []
      (pool plainCrates samWorld pairJobs) oneThenOther).map
        (fun reached => ((reached.threads 1).result?,
          (reached.threads 2).result?.isSome)) =
      some (some (.response ⟨.noContent, ""⟩), true) := by decide +kernel
  obtain ⟨reached, run, seen⟩ := Run.exists_of_replay
    (fun moment event checked =>
      (checked : MeetsEmptySlot 1 moment event)) replayed
  obtain ⟨finished, answered⟩ := Prod.mk.inj seen
  refine ⟨reached, run, answered, ?_⟩
  have leaves : ∀ thread, (pairJobs thread).LeavesHalf 1 := by
    intro thread
    match thread with
    | 0 => trivial
    | 1 => trivial
    | _ + 2 => trivial
  have asked : pairJobs 1 = .pair 1 ⟨"http://one", "key-one", none⟩ := rfl
  exact pair_at_most_once rfl rfl (by decide +kernel) leaves run asked
    (Prog.eq_done_of_result? finished)

/-- Both calls check before either writes, and their writes cross. -/
def crossing : List (Event Nat Call Answer) :=
  checks 1 ++ checks 2 ++ [putsKey 1 "key-one", putsKey 2 "key-two",
    setsUrl 2 "http://two", setsUrl 1 "http://one"]

/-- Both calls answer 204, and the stored half is the address of the one with
the key of the other. -/
theorem pair_twice_crossed :
    ∃ reached, Run perform .always (pool plainCrates samWorld pairJobs)
        crossing reached ∧
      reached.threads 1 = .done (.response ⟨.noContent, ""⟩) ∧
        reached.threads 2 = .done (.response ⟨.noContent, ""⟩) ∧
          ((reached.world.peers.row? 1).bind (·.gossipUrl),
              reached.world.secrets.get (peerGossipKey 1)) =
            (some "http://one", .ok (some "key-two")) := by
  have replayed : (replay perform (fun _ _ => true) []
      (pool plainCrates samWorld pairJobs) crossing).map
        (fun reached => ((reached.threads 1).result?,
          (reached.threads 2).result?,
          (reached.world.peers.row? 1).bind (·.gossipUrl),
          reached.world.secrets.get (peerGossipKey 1))) =
      some (some (.response ⟨.noContent, ""⟩),
        some (.response ⟨.noContent, ""⟩), some "http://one",
        .ok (some "key-two")) := by decide +kernel
  obtain ⟨reached, run, seen⟩ :=
    Run.exists_of_replay (fun _ _ _ => trivial) replayed
  simp only [Prod.mk.injEq] at seen
  obtain ⟨first, second, address, key⟩ := seen
  exact ⟨reached, run, Prog.eq_done_of_result? first,
    Prog.eq_done_of_result? second, by rw [address, key]⟩

end Gossip

end Sharerr
