import Sharerr.Rust.HashMap
import Sharerr.Tracker.Swarms
import Mathlib.Data.List.Induction

/-!
# The map of swarms

The tracker keeps a swarm for each torrent somebody is announcing for, and
drops it with its last member.  Members that have gone quiet stay until
somebody announces to their swarm; whoever reads a swarm has to pass them over.
What a swarm tells about a member at some instant is what the member's latest
announce said, unless that was a goodbye or is too old.
-/

namespace Sharerr

namespace Announce

namespace Swarm

variable {swarm : Swarm} {peerId other : PeerId} {peer : Peer}

/-- A swarm is a map of its members. -/
def toMap (swarm : Swarm) : Rust.HashMap PeerId Peer :=
  ⟨swarm.members, swarm.distinct⟩

theorem mem_members_iff :
    (peerId, peer) ∈ swarm.members ↔ swarm.get peerId = some peer := by
  change (peerId, peer) ∈ swarm.toMap.entries ↔ _
  exact Rust.HashMap.mem_entries_iff

theorem get_retain {keep : PeerId × Peer → Bool} :
    (swarm.retain keep).get peerId =
      (swarm.get peerId).filter fun peer => keep (peerId, peer) := by
  change (swarm.toMap.retain keep).get peerId = _
  exact Rust.HashMap.get_retain

theorem get_remove : (swarm.remove peerId).get other =
    if other = peerId then none else swarm.get other := by
  change (swarm.toMap.remove peerId).get other = _
  exact Rust.HashMap.get_remove

theorem get_insert : (swarm.insert peerId peer).get other =
    if other = peerId then some peer else swarm.get other := by
  change (swarm.toMap.insert peerId peer).get other = _
  exact Rust.HashMap.get_insert

end Swarm

/-- `Swarms::inner`. -/
abbrev SwarmMap := Rust.HashMap InfoHash Swarm

/-- One call of `Swarms::announce`. -/
structure Announcement where
  request : AnnounceRequest
  addr : SocketAddr
  now : Nat
  iteration : Iteration

namespace SwarmMap

/-- `entry(..).or_default()`. -/
def swarm (map : SwarmMap) (infoHash : InfoHash) : Swarm :=
  (map.get infoHash).getD Swarm.empty

/-- The swarm is swept of the dead before the answer is made up. -/
def announce (map : SwarmMap) (announcement : Announcement) :
    AnnounceResponse × SwarmMap :=
  let request := announcement.request
  let now := announcement.now
  let swept := (map.swarm request.infoHash).retain fun member =>
    member.2.isLive now
  let transferred := match swept.get request.peerId with
    | none => ⟨0, 0⟩
    | some previous => Transfer.since (previous.uploaded, previous.downloaded)
        (request.uploaded, request.downloaded)
  let joined :=
    if request.event = .stopped then swept.remove request.peerId
    else swept.insert request.peerId ⟨announcement.addr, request.left,
      request.uploaded, request.downloaded, now⟩
  let (complete, incomplete) := joined.tally now
  let peers := (((announcement.iteration.order joined).filter fun member =>
    member.1 ≠ request.peerId).take request.numwant).map (·.2.addr)
  (⟨peers, complete, incomplete, transferred⟩,
    if joined.members = [] then map.remove request.infoHash
    else map.insert request.infoHash joined)

/-- The map after a run of announces. -/
def after (announcements : List Announcement) : SwarmMap :=
  announcements.foldl (fun map announcement => (map.announce announcement).2)
    .empty

theorem after_append (announcements : List Announcement)
    (last : Announcement) : after (announcements ++ [last]) =
      ((after announcements).announce last).2 := by
  simp [after]

variable {map : SwarmMap} {infoHash other : InfoHash} {joined : Swarm}

theorem swarm_insert : swarm (map.insert infoHash joined) =
    Function.update (swarm map) infoHash joined := by
  funext other
  rw [swarm, Rust.HashMap.get_insert]
  by_cases same : other = infoHash
  · subst same
    simp
  · simp [same, swarm]

theorem swarm_remove (nobody : joined.members = []) :
    swarm (map.remove infoHash) =
      Function.update (swarm map) infoHash joined := by
  obtain ⟨members, distinct⟩ := joined
  cases nobody
  funext other
  rw [swarm, Rust.HashMap.get_remove]
  by_cases same : other = infoHash
  · subst same
    simp [Swarm.empty]
  · simp [same, swarm]

theorem announce_eq (map : SwarmMap) (announcement : Announcement) :
    (map.announce announcement).2 =
      if (Swarms.joined map.swarm announcement.request announcement.addr
          announcement.now).members = [] then
        map.remove announcement.request.infoHash
      else map.insert announcement.request.infoHash
        (Swarms.joined map.swarm announcement.request announcement.addr
          announcement.now) :=
  rfl

theorem announce_refines (map : SwarmMap) (announcement : Announcement) :
    ((map.announce announcement).1, swarm (map.announce announcement).2) =
      Swarms.announce map.swarm announcement.request announcement.addr
        announcement.now announcement.iteration := by
  refine Prod.ext rfl ?_
  simp only [announce_eq, Swarms.announce]
  split
  · rename_i nobody
    exact swarm_remove nobody
  · exact swarm_insert

end SwarmMap

namespace Announcement

/-- The entry that an announce leaves. -/
def peer (announcement : Announcement) : Peer :=
  ⟨announcement.addr, announcement.request.left, announcement.request.uploaded,
    announcement.request.downloaded, announcement.now⟩

def isAbout (infoHash : InfoHash) (peerId : PeerId)
    (announcement : Announcement) : Bool :=
  announcement.request.infoHash = infoHash &&
    announcement.request.peerId = peerId

/-- What is left of an announce at an instant. -/
def standing (announcement : Announcement) (now : Nat) : Option Peer :=
  if announcement.request.event = .stopped then none
  else some announcement.peer |>.filter (·.isLive now)

end Announcement

/-- The announces never go back in time. -/
def Ordered (announcements : List Announcement) : Prop :=
  announcements.Pairwise fun earlier later => earlier.now ≤ later.now

/-- The latest announce of a peer for a torrent. -/
def latest (infoHash : InfoHash) (peerId : PeerId)
    (past : List Announcement) : Option Announcement :=
  (past.filter (Announcement.isAbout infoHash peerId)).getLast?

/-- What a peer's announces amount to at an instant. -/
def standing (infoHash : InfoHash) (peerId : PeerId)
    (past : List Announcement) (now : Nat) : Option Peer :=
  (latest infoHash peerId past).bind (·.standing now)

section Latest

variable {infoHash : InfoHash} {peerId : PeerId} {past : List Announcement}
variable {last : Announcement}

theorem latest_append_own
    (own : Announcement.isAbout infoHash peerId last = true) :
    latest infoHash peerId (past ++ [last]) = some last := by
  have kept :
      [last].filter (Announcement.isAbout infoHash peerId) = [last] := by
    simp [own]
  rw [latest, List.filter_append, kept, List.getLast?_concat]

theorem latest_append_other
    (other : Announcement.isAbout infoHash peerId last ≠ true) :
    latest infoHash peerId (past ++ [last]) = latest infoHash peerId past := by
  have dropped : [last].filter (Announcement.isAbout infoHash peerId) = [] := by
    simp [other]
  rw [latest, List.filter_append, dropped, List.append_nil, latest]

theorem mem_of_latest (found : latest infoHash peerId past = some last) :
    last ∈ past ∧ last.request.infoHash = infoHash ∧
      last.request.peerId = peerId := by
  obtain ⟨member, own⟩ := List.mem_filter.mp (List.mem_of_getLast? found)
  simpa [Announcement.isAbout, member] using own

end Latest

/-- The map shows of every member what its latest announce says. -/
def Follows (past : List Announcement) (map : SwarmMap) : Prop :=
  ∀ infoHash peerId now, (∀ announcement ∈ past, announcement.now ≤ now) →
    ((map.swarm infoHash).get peerId).filter (·.isLive now) =
      standing infoHash peerId past now

theorem isLive_of_later {peer : Peer} {earlier later : Nat}
    (ordered : earlier ≤ later) (alive : peer.isLive later = true) :
    peer.isLive earlier = true := by
  simp only [Peer.isLive, decide_eq_true_eq] at *
  omega

/-- Who was swept at an instant is not live at any later one. -/
theorem filter_isLive_filter {entry : Option Peer} {earlier later : Nat}
    (ordered : earlier ≤ later) :
    (entry.filter (·.isLive earlier)).filter (·.isLive later) =
      entry.filter (·.isLive later) := by
  cases entry with
  | none => rfl
  | some peer =>
    by_cases alive : peer.isLive later = true
    · have before := isLive_of_later ordered alive
      simp [Option.filter_some, before, alive]
    · by_cases before : peer.isLive earlier = true
      · simp [Option.filter_some, before]
      · simp [Option.filter_some, before, alive]

section Follows

variable {past : List Announcement} {map : SwarmMap} {last : Announcement}
variable {infoHash : InfoHash} {peerId : PeerId}

theorem swarm_announce : SwarmMap.swarm (map.announce last).2 =
    Function.update map.swarm last.request.infoHash
      (Swarms.joined map.swarm last.request last.addr last.now) :=
  congrArg Prod.snd (SwarmMap.announce_refines map last)

/-- The entries of the swarm that an announce is about, right after it. -/
theorem get_joined :
    (Swarms.joined map.swarm last.request last.addr last.now).get peerId =
      if peerId = last.request.peerId then
        if last.request.event = .stopped then none else some last.peer
      else ((map.swarm last.request.infoHash).get peerId).filter
        (·.isLive last.now) := by
  simp only [Swarms.joined]
  split
  · rename_i stopped
    rw [Swarm.get_remove, Swarm.get_retain]
  · rename_i staying
    rw [Swarm.get_insert, Swarm.get_retain]
    rfl

theorem Follows.step (follows : Follows past map) :
    Follows (past ++ [last]) (map.announce last).2 := by
  intro infoHash peerId now upTo
  have until_ : ∀ announcement ∈ past, announcement.now ≤ now :=
    fun announcement member => upTo announcement (List.mem_append_left _ member)
  have final : last.now ≤ now :=
    upTo last (List.mem_append_right _ (List.mem_singleton.mpr rfl))
  rw [swarm_announce, standing]
  by_cases torrent : infoHash = last.request.infoHash
  · subst torrent
    rw [Function.update_self, get_joined]
    by_cases own : peerId = last.request.peerId
    · subst own
      rw [if_pos rfl, latest_append_own (by simp [Announcement.isAbout]),
        Option.bind_some, Announcement.standing]
      split
      · rfl
      · rfl
    · rw [if_neg own, filter_isLive_filter final,
        latest_append_other (by simp [Announcement.isAbout, Ne.symm own])]
      exact follows _ _ now until_
  · rw [Function.update_of_ne torrent,
      latest_append_other (by simp [Announcement.isAbout, Ne.symm torrent])]
    exact follows infoHash peerId now until_

theorem follows_after (announcements : List Announcement) :
    Follows announcements (SwarmMap.after announcements) := by
  induction announcements using List.reverseRecOn with
  | nil => exact fun _ _ _ _ => rfl
  | append_singleton past last ih =>
    rw [SwarmMap.after_append]
    exact ih.step

/-- What is swept at an announce is told by the announces before it. -/
theorem get_swept (ordered : Ordered (past ++ [last])) :
    ((((SwarmMap.after past).swarm infoHash).retain fun member =>
        member.2.isLive last.now).get peerId) =
      standing infoHash peerId past last.now := by
  rw [Swarm.get_retain]
  apply follows_after past
  intro announcement member
  exact (List.pairwise_append.mp ordered).2.2 announcement member last
    (List.mem_singleton.mpr rfl)

end Follows

end Announce

end Sharerr
