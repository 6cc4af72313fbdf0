import Mathlib.Data.List.Induction
import Sharerr.Tracker.Swarms

/-!
# Whom the tracker introduces

An address is fixed when its client announces and handed to others much
later.  It is the client's own as long as nobody who connects from a private
address declares a public one: the declared address is then taken as it is.
-/

namespace Sharerr

namespace Announce

/-- The address is one its client may be announced under: where it connected
from, or a private address it declared from a private one. -/
def Arrival.Vouches (arrival : Arrival) (addr : SocketAddr) : Prop :=
  ∃ request auth, arrival.admitted = .ok (request, auth) ∧
    addr.port = request.port ∧
      (addr.ip = arrival.remote.toCanonical ∨
        request.declaredIp.map (·.toCanonical) = some addr.ip ∧
          isPrivateIp addr.ip = true ∧
            isPrivateIp arrival.remote.toCanonical = true)

def answer (past : List Arrival) (arrival : Arrival) :
    Except AnnounceError AnnounceResponse :=
  (handleAnnounce (after past) arrival).1

/-- Every address handed out in the run is vouched for by an announce before
it. -/
def NobodyForged (arrivals : List Arrival) : Prop :=
  ∀ past arrival later response, arrivals = past ++ arrival :: later →
    answer past arrival = .ok response →
      ∀ addr ∈ response.peers, ∃ other ∈ past, other.Vouches addr

/-- Who connects from a private address declares no public one. -/
def Arrival.Modest (arrival : Arrival) : Prop :=
  ∀ request auth, arrival.admitted = .ok (request, auth) →
    isPrivateIp arrival.remote.toCanonical = true →
      ∀ declared, request.declaredIp = some declared →
        isPrivateIp declared.toCanonical = true

variable {arrival : Arrival} {request : AnnounceRequest}
  {auth : Tracker.TokenAuth}

/-- What an announce is recorded under is its own to use exactly where the
client was modest. -/
theorem vouches_resolveAddr_iff
    (admitted : arrival.admitted = .ok (request, auth)) :
    arrival.Vouches (request.resolveAddr arrival.remote) ↔ arrival.Modest := by
  constructor
  · rintro ⟨other, _, same, -, vouched⟩ again _ read fromPrivate declared said
    cases admitted.symm.trans same
    cases admitted.symm.trans read
    simp only [AnnounceRequest.resolveAddr, said, Option.map_some,
      if_pos fromPrivate] at vouched
    rcases vouched with own | ⟨-, isPrivate, -⟩
    · rw [own]
      exact fromPrivate
    · exact isPrivate
  · intro modest
    refine ⟨request, auth, admitted, rfl, ?_⟩
    cases said : request.declaredIp with
    | none => exact .inl (by simp [AnnounceRequest.resolveAddr, said])
    | some declared =>
      by_cases fromPrivate : isPrivateIp arrival.remote.toCanonical = true
      · right
        have isPrivate := modest request auth admitted fromPrivate declared
          said
        simp [AnnounceRequest.resolveAddr, said, fromPrivate, isPrivate]
      · left
        simp [AnnounceRequest.resolveAddr, said, fromPrivate]

theorem mem_joined {swarms : Swarms} {addr : SocketAddr} {now : Nat}
    {member : PeerId × Peer}
    (among : member ∈ (swarms.joined request addr now).members) :
    member ∈ (swarms request.infoHash).members ∨
      member.1 = request.peerId ∧ member.2.addr = addr := by
  unfold Swarms.joined at among
  split at among
  · exact .inl (Swarm.mem_retain.mp (Swarm.mem_retain.mp among).1).1
  · rcases Swarm.mem_insert among with old | rfl
    · exact .inl (Swarm.mem_retain.mp old).1
    · exact .inr ⟨rfl, rfl⟩

theorem mem_peers_announce {swarms : Swarms} {addr told : SocketAddr}
    {now : Nat} {iteration : Iteration}
    (handed : told ∈ (swarms.announce request addr now iteration).1.peers) :
    ∃ member ∈ (swarms request.infoHash).members, member.2.addr = told := by
  obtain ⟨member, taken, rfl⟩ := List.mem_map.mp handed
  obtain ⟨listed, other⟩ := List.mem_filter.mp (List.mem_of_mem_take taken)
  rcases mem_joined ((iteration.perm _).mem_iff.mp listed) with old | own
  · exact ⟨member, old, rfl⟩
  · simp [own.1] at other

/-- Every member of every swarm is vouched for. -/
def AllVouched (past : List Arrival) : Prop :=
  ∀ infoHash, ∀ member ∈ (after past infoHash).members,
    ∃ other ∈ past, other.Vouches member.2.addr

theorem AllVouched.step {past : List Arrival} (known : AllVouched past)
    (modest : arrival.Modest) : AllVouched (past ++ [arrival]) := by
  have old : ∀ infoHash, ∀ member ∈ (after past infoHash).members,
      ∃ other ∈ past ++ [arrival], other.Vouches member.2.addr := by
    intro infoHash member among
    obtain ⟨other, before, vouches⟩ := known infoHash member among
    exact ⟨other, List.mem_append_left _ before, vouches⟩
  intro infoHash member among
  rw [after_append, handleAnnounce] at among
  cases admitted : arrival.admitted with
  | error reason =>
    simp only [admitted] at among
    exact old infoHash member among
  | ok pair =>
    obtain ⟨request, auth⟩ := pair
    simp only [admitted, Swarms.announce] at among
    by_cases same : infoHash = request.infoHash
    · subst same
      rw [Function.update_self] at among
      rcases mem_joined among with stayed | ⟨-, recorded⟩
      · exact old _ member stayed
      · rw [recorded]
        exact ⟨arrival, List.mem_append_right _ List.mem_cons_self,
          (vouches_resolveAddr_iff admitted).mpr modest⟩
    · rw [Function.update_of_ne same] at among
      exact old infoHash member among

theorem allVouched_of_modest {arrivals : List Arrival}
    (modest : ∀ arrival ∈ arrivals, arrival.Modest) : AllVouched arrivals := by
  induction arrivals using List.reverseRecOn with
  | nil =>
    intro infoHash member among
    cases among
  | append_singleton past arrival ih =>
    have before : AllVouched past := ih fun other among =>
      modest other (List.mem_append_left _ among)
    exact before.step
      (modest arrival (List.mem_append_right _ List.mem_cons_self))

/-- In every run of announces none of which declares a public address from a
private one, nobody is announced by somebody else. -/
theorem nobody_forged_of_modest (arrivals : List Arrival)
    (modest : ∀ arrival ∈ arrivals, arrival.Modest) :
    NobodyForged arrivals := by
  rintro past arrival later response rfl answered told handed
  have known : AllVouched past := allVouched_of_modest fun other among =>
    modest other (List.mem_append_left _ among)
  rw [answer, handleAnnounce] at answered
  cases admitted : arrival.admitted with
  | error reason => simp [admitted] at answered
  | ok pair =>
    obtain ⟨request, auth⟩ := pair
    simp only [admitted, Except.ok.injEq] at answered
    subst answered
    obtain ⟨member, among, rfl⟩ := mem_peers_announce handed
    exact known _ member among

def Arrival.modest (arrival : Arrival) : Bool :=
  match arrival.admitted with
  | .error _ => true
  | .ok (request, _) =>
    !isPrivateIp arrival.remote.toCanonical ||
      request.declaredIp.all fun declared => isPrivateIp declared.toCanonical

theorem modest_of_check (checked : arrival.modest = true) :
    arrival.Modest := by
  intro request auth admitted fromPrivate declared said
  simpa [Arrival.modest, admitted, fromPrivate, said] using checked

/-- A client behind a reverse proxy, as the tracker sees it. -/
def proxied (peerId rest : String) : Arrival where
  query := Vault.toUtf8
    ("info_hash=aaaaaaaaaaaaaaaaaaaa&peer_id=" ++ peerId ++ "&port=6881" ++
      rest)
  remote := .v4 0xAC120002#32
  auth := .ok Tracker.TokenAuth.default
  served := fun _ => true
  now := 0
  iteration := asListed

def firstClient (rest : String) : Arrival :=
  proxied "bbbbbbbbbbbbbbbbbbbb" rest

def secondClient : Arrival := proxied "cccccccccccccccccccc" ""

theorem neighbour_introduced :
    NobodyForged [firstClient "&ip=172.18.0.9", secondClient] ∧
      (answer [firstClient "&ip=172.18.0.9"] secondClient).toOption.map
        (·.peers) = some [⟨.v4 0xAC120009#32, 6881⟩] := by
  refine ⟨nobody_forged_of_modest _ ?_, by decide +kernel⟩
  intro arrival among
  rcases List.mem_cons.mp among with rfl | last
  · exact modest_of_check (by decide +kernel)
  · rw [List.mem_singleton.mp last]
    exact modest_of_check (by decide +kernel)

/-- The second client is sent to 203.0.113.9, from where nobody announced. -/
theorem stranger_introduced :
    ¬ NobodyForged [firstClient "&ip=203.0.113.9", secondClient] := by
  intro honest
  have told : (answer [firstClient "&ip=203.0.113.9"]
      secondClient).toOption.map (·.peers) =
        some [⟨.v4 0xCB007109#32, 6881⟩] := by
    decide +kernel
  cases answered : answer [firstClient "&ip=203.0.113.9"] secondClient with
  | error reason => simp [answered, Except.toOption] at told
  | ok response =>
    have handed : response.peers = [⟨.v4 0xCB007109#32, 6881⟩] := by
      simpa [answered, Except.toOption] using told
    obtain ⟨other, before, _, _, -, -, own | ⟨-, isPrivate, -⟩⟩ :=
      honest [_] _ [] response rfl answered ⟨.v4 0xCB007109#32, 6881⟩
        (by simp [handed])
    · rw [List.mem_singleton.mp before] at own
      exact absurd own (by decide)
    · exact absurd isPrivate (by decide)

end Announce

end Sharerr
