import Mathlib.Algebra.GroupWithZero.Nat
import Sharerr.Tracker.Introductions
import Sharerr.Tracker.SwarmMap

/-!
# What the tracker shows

A status page, a list of swarms and a scrape each read the map of swarms for
themselves, between two announces and in whatever order the map is walked.
Members that are no longer live may still be in it; every reader passes them
over, so that all of them show the same.
-/

namespace Sharerr

namespace Announce

structure SwarmStats where
  swarms : Nat
  peers : Nat
  seeders : Nat
deriving DecidableEq, Repr

structure SwarmView where
  infoHash : InfoHash
  peers : List SocketAddr
  complete : Nat
  incomplete : Nat
deriving DecidableEq, Repr

/-- The order in which the map of swarms is walked, and each of them. -/
structure Walk extends Iteration where
  swarms : SwarmMap → List (InfoHash × Swarm)
  swarmsPerm : ∀ map, (swarms map).Perm map.entries

/-- The addresses of the members still inside their TTL. -/
def Swarm.live (swarm : Swarm) (iteration : Iteration) (now : Nat) :
    List SocketAddr :=
  ((iteration.order swarm).filter fun member => member.2.isLive now).map
    (·.2.addr)

/-- A swarm with a live peer, as it is shown. -/
def Swarm.view (iteration : Iteration) (now : Nat)
    (entry : InfoHash × Swarm) : Option SwarmView :=
  let peers := entry.2.live iteration now
  if peers = [] then none
  else
    let (complete, incomplete) := entry.2.tally now
    some ⟨entry.1, peers, complete, incomplete⟩

namespace SwarmMap

def stats (map : SwarmMap) (walk : Walk) (now : Nat) : SwarmStats :=
  (walk.swarms map).foldl
    (fun stats entry =>
      let (seeders, leechers) := entry.2.tally now
      if 0 < seeders + leechers then
        ⟨stats.swarms + 1, stats.peers + (seeders + leechers),
          stats.seeders + seeders⟩
      else stats)
    ⟨0, 0, 0⟩

def snapshots (map : SwarmMap) (walk : Walk) (now : Nat) : List SwarmView :=
  (walk.swarms map).filterMap (Swarm.view walk.toIteration now)

def snapshot (map : SwarmMap) (walk : Walk) (now : Nat)
    (infoHash : InfoHash) : Option SwarmView :=
  (map.get infoHash).bind fun swarm =>
    Swarm.view walk.toIteration now (infoHash, swarm)

/-- `counts`; what it is collected from has every hash once. -/
def counts (map : SwarmMap) (now : Nat) :
    Rust.HashMap InfoHash (Nat × Nat) where
  entries := (map.entries.map fun entry => (entry.1, entry.2.tally now)).filter
    fun entry => entry.2 ≠ (0, 0)
  distinct := by
    apply List.Nodup.sublist (List.filter_sublist.map _)
    rw [List.map_map]
    exact map.distinct

def scrape (map : SwarmMap) (infoHash : InfoHash) (now : Nat) : Nat × Nat :=
  match map.get infoHash with
  | none => (0, 0)
  | some swarm => swarm.tally now

end SwarmMap

namespace Swarm

variable {swarm : Swarm} {now : Nat} {iteration other : Iteration}

theorem foldl_tally {members : List (PeerId × Peer)} {counts : Nat × Nat} :
    members.foldl (fun counts member =>
      if member.2.left = 0 then (counts.1 + 1, counts.2)
      else (counts.1, counts.2 + 1)) counts =
        (counts.1 + members.countP (·.2.left = 0),
          counts.2 + members.countP (·.2.left ≠ 0)) := by
  induction members generalizing counts with
  | nil => rfl
  | cons member members ih =>
    by_cases seeder : member.2.left = 0
    · simp [ih, seeder, Nat.add_assoc, Nat.add_comm 1]
    · simp [ih, seeder, Nat.add_assoc, Nat.add_comm 1]

/-- Everybody live is either a seeder or a leecher. -/
theorem tally_sum : (swarm.tally now).1 + (swarm.tally now).2 =
    (swarm.live iteration now).length := by
  have walked : (swarm.live iteration now).length =
      (swarm.members.filter fun member => member.2.isLive now).length := by
    rw [live, List.length_map]
    exact ((iteration.perm swarm).filter _).length_eq
  rw [walked, tally, foldl_tally,
    List.length_eq_countP_add_countP (·.2.left = 0)]
  simp

theorem live_perm :
    (swarm.live iteration now).Perm (swarm.live other now) :=
  ((((iteration.perm swarm).trans (other.perm swarm).symm).filter _).map _)

theorem tally_eq_zero_iff :
    swarm.tally now = (0, 0) ↔ swarm.live iteration now = [] := by
  rw [← List.length_eq_zero_iff, ← tally_sum, Prod.ext_iff]
  exact Nat.add_eq_zero_iff.symm

theorem view_eq_some_iff {entry : InfoHash × Swarm} {view : SwarmView} :
    Swarm.view iteration now entry = some view ↔
      entry.2.tally now ≠ (0, 0) ∧ view = ⟨entry.1, entry.2.live iteration now,
        (entry.2.tally now).1, (entry.2.tally now).2⟩ := by
  have nobodyIff :
      entry.2.tally now = (0, 0) ↔ entry.2.live iteration now = [] :=
    tally_eq_zero_iff
  rw [Ne, nobodyIff, Swarm.view]
  split
  · rename_i nobody
    simp [nobody]
  · rename_i somebody
    simp [somebody, eq_comm]

end Swarm

/-- The same members shown, in whatever order. -/
def SwarmView.Same (left right : SwarmView) : Prop :=
  left.infoHash = right.infoHash ∧ left.peers.Perm right.peers ∧
    left.complete = right.complete ∧ left.incomplete = right.incomplete

/-- The views of one moment tell of the same swarms and the same peers. -/
structure ViewsAgree (map : SwarmMap) (now : Nat) : Prop where
  counted : ∀ walk infoHash, (map.counts now).get infoHash ≠ none ↔
    infoHash ∈ (map.snapshots walk now).map (·.infoHash)
  single : ∀ walk other infoHash,
    map.snapshot walk now infoHash ≠ none ↔
      infoHash ∈ (map.snapshots other now).map (·.infoHash)
  same : ∀ walk other infoHash view,
    map.snapshot walk now infoHash = some view →
      view.infoHash = infoHash ∧
        ∃ shown ∈ map.snapshots other now, shown.Same view
  scraped : ∀ infoHash,
    map.scrape infoHash now = ((map.counts now).get infoHash).getD (0, 0)
  shown : ∀ walk, ∀ view ∈ map.snapshots walk now,
    view.complete + view.incomplete = view.peers.length
  once : ∀ walk, ((map.snapshots walk now).map (·.infoHash)).Nodup
  totals : ∀ walk other, map.stats walk now =
    ⟨(map.snapshots other now).length,
      ((map.snapshots other now).map (·.peers.length)).sum,
      ((map.snapshots other now).map (·.complete)).sum⟩

section Agreement

variable {map : SwarmMap} {now : Nat} {walk other : Walk}
variable {infoHash : InfoHash} {swarm : Swarm} {view : SwarmView}

theorem get_counts : (map.counts now).get infoHash =
    ((map.get infoHash).map (·.tally now)).filter (· ≠ (0, 0)) := by
  cases found : (map.counts now).get infoHash with
  | some tally =>
    obtain ⟨member, present⟩ :=
      List.mem_filter.mp (Rust.HashMap.mem_entries_iff.mpr found)
    obtain ⟨entry, among, same⟩ := List.mem_map.mp member
    obtain ⟨rfl, rfl⟩ := Prod.mk.inj same
    rw [Rust.HashMap.mem_entries_iff.mp among, Option.map_some,
      Option.filter_some, if_pos present]
  | none =>
    cases before : map.get infoHash with
    | none => rfl
    | some swarm =>
      by_cases nobody : swarm.tally now = (0, 0)
      · simp [Option.filter_some, nobody]
      · have member : (infoHash, swarm.tally now) ∈
            (map.counts now).entries :=
          List.mem_filter.mpr ⟨List.mem_map.mpr
            ⟨_, Rust.HashMap.mem_entries_iff.mpr before, rfl⟩,
              by simpa using nobody⟩
        rw [Rust.HashMap.mem_entries_iff, found] at member
        cases member

theorem mem_swarms_iff :
    (infoHash, swarm) ∈ walk.swarms map ↔ map.get infoHash = some swarm :=
  (walk.swarmsPerm map).mem_iff.trans Rust.HashMap.mem_entries_iff

theorem snapshot_eq_some_iff : map.snapshot walk now infoHash = some view ↔
    ∃ swarm, map.get infoHash = some swarm ∧ swarm.tally now ≠ (0, 0) ∧
      view = ⟨infoHash, swarm.live walk.toIteration now,
        (swarm.tally now).1, (swarm.tally now).2⟩ := by
  simp only [SwarmMap.snapshot, Option.bind_eq_some_iff,
    Swarm.view_eq_some_iff]

theorem mem_snapshots_iff : view ∈ map.snapshots walk now ↔
    ∃ infoHash, map.snapshot walk now infoHash = some view := by
  simp only [SwarmMap.snapshots, SwarmMap.snapshot, List.mem_filterMap,
    Option.bind_eq_some_iff, Prod.exists, mem_swarms_iff]

theorem listed_iff :
    infoHash ∈ (map.snapshots walk now).map (·.infoHash) ↔
      ∃ swarm, map.get infoHash = some swarm ∧ swarm.tally now ≠ (0, 0) := by
  simp only [List.mem_map, mem_snapshots_iff, snapshot_eq_some_iff]
  constructor
  · rintro ⟨_, ⟨_, swarm, found, somebody, rfl⟩, rfl⟩
    exact ⟨swarm, found, somebody⟩
  · rintro ⟨swarm, found, somebody⟩
    exact ⟨_, ⟨infoHash, swarm, found, somebody, rfl⟩, rfl⟩

theorem once_snapshots : ((map.snapshots walk now).map (·.infoHash)).Nodup := by
  have distinct : ((walk.swarms map).map (·.1)).Nodup :=
    ((walk.swarmsPerm map).map _).nodup_iff.mpr map.distinct
  rw [List.Nodup, List.pairwise_map] at distinct ⊢
  apply List.Pairwise.filterMap _ _ distinct
  intro entry other apart view shown later shownToo
  obtain ⟨-, rfl⟩ := Swarm.view_eq_some_iff.mp shown
  obtain ⟨-, rfl⟩ := Swarm.view_eq_some_iff.mp shownToo
  exact apart

theorem foldl_stats (walk : Walk) {entries : List (InfoHash × Swarm)}
    {start : SwarmStats} :
    entries.foldl (fun stats entry =>
      let (seeders, leechers) := entry.2.tally now
      if 0 < seeders + leechers then
        ⟨stats.swarms + 1, stats.peers + (seeders + leechers),
          stats.seeders + seeders⟩
      else stats) start =
        let views := entries.filterMap (Swarm.view walk.toIteration now)
        ⟨start.swarms + views.length,
          start.peers + (views.map (·.peers.length)).sum,
          start.seeders + (views.map (·.complete)).sum⟩ := by
  induction entries generalizing start with
  | nil => rfl
  | cons entry entries ih =>
    rw [List.foldl_cons, ih, List.filterMap_cons]
    cases shown : Swarm.view walk.toIteration now entry with
    | none =>
      have nobody : entry.2.tally now = (0, 0) := by
        by_contra somebody
        rw [Swarm.view_eq_some_iff.mpr ⟨somebody, rfl⟩] at shown
        cases shown
      simp [nobody]
    | some view =>
      obtain ⟨somebody, rfl⟩ := Swarm.view_eq_some_iff.mp shown
      have counted : (entry.2.tally now).1 + (entry.2.tally now).2 =
          (entry.2.live walk.toIteration now).length := Swarm.tally_sum
      have somebodyLive :
          0 < (entry.2.live walk.toIteration now).length := by
        rw [← counted, Nat.pos_iff_ne_zero]
        intro zero
        exact somebody (Prod.ext_iff.mpr (Nat.add_eq_zero_iff.mp zero))
      simp only [if_pos somebodyLive, counted, List.length_cons,
        List.map_cons, List.sum_cons, SwarmStats.mk.injEq]
      omega

theorem viewsAgree (map : SwarmMap) (now : Nat) : ViewsAgree map now where
  counted walk infoHash := by
    rw [listed_iff, get_counts]
    cases map.get infoHash <;> simp [Option.filter_some]
  single walk other infoHash := by
    rw [listed_iff, Option.ne_none_iff_exists']
    simp only [snapshot_eq_some_iff]
    constructor
    · rintro ⟨_, swarm, found, somebody, -⟩
      exact ⟨swarm, found, somebody⟩
    · rintro ⟨swarm, found, somebody⟩
      exact ⟨_, swarm, found, somebody, rfl⟩
  same walk other infoHash view shown := by
    obtain ⟨swarm, found, somebody, rfl⟩ := snapshot_eq_some_iff.mp shown
    have listed : (⟨infoHash, swarm.live other.toIteration now,
        (swarm.tally now).1, (swarm.tally now).2⟩ : SwarmView) ∈
          map.snapshots other now :=
      mem_snapshots_iff.mpr ⟨infoHash,
        snapshot_eq_some_iff.mpr ⟨swarm, found, somebody, rfl⟩⟩
    exact ⟨rfl, _, listed, rfl, Swarm.live_perm, rfl, rfl⟩
  scraped infoHash := by
    rw [get_counts, SwarmMap.scrape]
    cases map.get infoHash with
    | none => rfl
    | some swarm =>
      by_cases nobody : swarm.tally now = (0, 0)
      · simp [Option.filter_some, nobody]
      · simp [Option.filter_some, nobody]
  shown walk view member := by
    obtain ⟨infoHash, told⟩ := mem_snapshots_iff.mp member
    obtain ⟨swarm, -, -, rfl⟩ := snapshot_eq_some_iff.mp told
    exact Swarm.tally_sum
  once walk := once_snapshots
  totals walk other := by
    rw [SwarmMap.stats, foldl_stats other]
    have order : ((walk.swarms map).filterMap
        (Swarm.view other.toIteration now)).Perm
          (map.snapshots other now) :=
      ((walk.swarmsPerm map).trans (other.swarmsPerm map).symm).filterMap _
    simp only [Nat.zero_add, order.length_eq, (order.map _).sum_nat]

end Agreement

def NoneEmpty (map : SwarmMap) : Prop :=
  ∀ infoHash swarm, map.get infoHash = some swarm → swarm.members ≠ []

theorem NoneEmpty.step {map : SwarmMap} (kept : NoneEmpty map)
    (last : Announcement) : NoneEmpty (map.announce last).2 := by
  intro infoHash swarm found
  rw [SwarmMap.announce_eq] at found
  split at found
  · rw [Rust.HashMap.get_remove] at found
    split at found
    · cases found
    · exact kept infoHash swarm found
  · rename_i somebody
    rw [Rust.HashMap.get_insert] at found
    split at found
    · cases found
      exact somebody
    · exact kept infoHash swarm found

theorem noneEmpty_after (announcements : List Announcement) :
    NoneEmpty (SwarmMap.after announcements) := by
  induction announcements using List.reverseRecOn with
  | nil =>
    intro infoHash swarm found
    cases found
  | append_singleton past last ih =>
    rw [SwarmMap.after_append]
    exact ih.step last

/-- The other members of its swarm that an announce finds live. -/
def liveOthers (past : List Announcement) (last : Announcement) :
    List PeerId :=
  (past.map (·.request.peerId)).dedup.filter fun peerId =>
    peerId ≠ last.request.peerId &&
      (standing last.request.infoHash peerId past last.now).isSome

/-- The response counts what a scrape counts right after it, and introduces
other live members under the addresses they announced last. -/
structure Answered (past : List Announcement) (last : Announcement)
    (response : AnnounceResponse) : Prop where
  counts : (response.complete, response.incomplete) =
    (SwarmMap.after (past ++ [last])).scrape last.request.infoHash last.now
  count : response.peers.length =
    min last.request.numwant (liveOthers past last).length
  introduced : ∃ peerIds : List PeerId, peerIds.Nodup ∧
    peerIds ⊆ liveOthers past last ∧
      response.peers.map some = peerIds.map fun peerId =>
        (standing last.request.infoHash peerId past last.now).map (·.addr)

section Answer

variable {past : List Announcement} {last : Announcement}

theorem standing_isSome {infoHash : InfoHash} {peerId : PeerId} {now : Nat}
    (stands : (standing infoHash peerId past now).isSome = true) :
    peerId ∈ past.map (·.request.peerId) := by
  rw [standing] at stands
  cases found : latest infoHash peerId past with
  | none => simp [found] at stands
  | some announcement =>
    obtain ⟨member, -, rfl⟩ := mem_of_latest found
    exact List.mem_map_of_mem member

theorem mem_liveOthers {peerId : PeerId} : peerId ∈ liveOthers past last ↔
    peerId ≠ last.request.peerId ∧
      (standing last.request.infoHash peerId past last.now).isSome = true := by
  rw [liveOthers, List.mem_filter, List.mem_dedup]
  simp only [decide_not, Bool.and_eq_true, Bool.not_eq_eq_eq_not,
    Bool.not_true, decide_eq_false_iff_not, and_iff_right_iff_imp, and_imp]
  intro _ stands
  exact standing_isSome stands

/-- The members of the swarm an announce leaves, its own entry apart. -/
def otherMembers (past : List Announcement) (last : Announcement) :
    List (PeerId × Peer) :=
  (last.iteration.order (Swarms.joined (SwarmMap.after past).swarm
    last.request last.addr last.now)).filter fun member =>
      member.1 ≠ last.request.peerId

theorem mem_otherMembers (ordered : Ordered (past ++ [last]))
    {member : PeerId × Peer} : member ∈ otherMembers past last ↔
      member.1 ≠ last.request.peerId ∧
        standing last.request.infoHash member.1 past last.now =
          some member.2 := by
  obtain ⟨peerId, peer⟩ := member
  rw [otherMembers, List.mem_filter, (last.iteration.perm _).mem_iff,
    Swarm.mem_members_iff, get_joined, ← get_swept ordered,
    Swarm.get_retain, decide_eq_true_eq, and_comm]
  apply and_congr_right
  intro other
  rw [if_neg other]

theorem nodup_otherMembers : ((otherMembers past last).map (·.1)).Nodup := by
  apply List.Nodup.sublist (List.filter_sublist.map _)
  exact ((last.iteration.perm _).map _).nodup_iff.mpr (Swarm.distinct _)

theorem otherMembers_perm (ordered : Ordered (past ++ [last])) :
    ((otherMembers past last).map (·.1)).Perm (liveOthers past last) := by
  have distinct : (liveOthers past last).Nodup :=
    (List.nodup_dedup _).filter _
  refine (List.perm_ext_iff_of_nodup nodup_otherMembers distinct).mpr ?_
  intro peerId
  rw [List.mem_map, mem_liveOthers]
  constructor
  · rintro ⟨member, among, rfl⟩
    obtain ⟨other, stands⟩ := (mem_otherMembers ordered).mp among
    exact ⟨other, Option.isSome_of_eq_some stands⟩
  · rintro ⟨other, stands⟩
    obtain ⟨peer, stands⟩ := Option.isSome_iff_exists.mp stands
    exact ⟨(peerId, peer), (mem_otherMembers ordered).mpr ⟨other, stands⟩, rfl⟩

/-- A swarm that is dropped counts nobody, like one that is not there. -/
theorem scrape_announce {map : SwarmMap} :
    (map.announce last).2.scrape last.request.infoHash last.now =
      (Swarms.joined map.swarm last.request last.addr last.now).tally
        last.now := by
  rw [SwarmMap.announce_eq]
  split
  · rename_i nobody
    rw [SwarmMap.scrape, Rust.HashMap.get_remove, if_pos rfl, Swarm.tally,
      nobody]
    rfl
  · rw [SwarmMap.scrape, Rust.HashMap.get_insert, if_pos rfl]

theorem answered_announce (ordered : Ordered (past ++ [last])) :
    Answered past last ((SwarmMap.after past).announce last).1 := by
  have peers : ((SwarmMap.after past).announce last).1.peers =
      ((otherMembers past last).take last.request.numwant).map (·.2.addr) :=
    rfl
  refine ⟨?_, ?_, ?_⟩
  · rw [SwarmMap.after_append, scrape_announce]
    rfl
  · have listed := (otherMembers_perm ordered).length_eq
    rw [List.length_map] at listed
    rw [peers, List.length_map, List.length_take, listed]
  · refine ⟨((otherMembers past last).take last.request.numwant).map (·.1),
      ?_, ?_, ?_⟩
    · rw [List.map_take]
      exact nodup_otherMembers.sublist (List.take_sublist _ _)
    · intro peerId taken
      rw [List.map_take] at taken
      exact (otherMembers_perm ordered).mem_iff.mp (List.mem_of_mem_take taken)
    · rw [peers, List.map_map, List.map_map]
      apply List.map_congr_left
      intro member taken
      obtain ⟨-, stands⟩ := (mem_otherMembers ordered).mp
        (List.mem_of_mem_take taken)
      simp [stands]

end Answer

/-- After every run of announces no swarm is empty and all views agree at
every instant; and every announce of the run was answered with what they
show. -/
theorem views_agree (announcements : List Announcement)
    (ordered : Ordered announcements) :
    NoneEmpty (SwarmMap.after announcements) ∧
      (∀ now, ViewsAgree (SwarmMap.after announcements) now) ∧
        ∀ past last later, announcements = past ++ last :: later →
          Answered past last ((SwarmMap.after past).announce last).1 := by
  refine ⟨noneEmpty_after announcements, fun now => viewsAgree _ now, ?_⟩
  rintro past last later rfl
  rw [List.append_cons] at ordered
  exact answered_announce (List.pairwise_append.mp ordered).1

def joining (peerId : UInt8) (left seconds : Nat) : Announcement where
  request := {
    infoHash := ⟨List.replicate 20 9, List.length_replicate⟩
    peerId := ⟨List.replicate 20 peerId, by simp [Tracker.hashLen]⟩
    port := 6881
    left
    uploaded := 0
    downloaded := 0
    event := .started
    compact := true
    numwant := 50
    declaredIp := none }
  addr := ⟨.v4 0xCB007105#32, 6881⟩
  now := seconds * 1000000000
  iteration := asListed

/-- A leecher a minute after a seeder. -/
theorem seeder_introduced :
    NoneEmpty (SwarmMap.after [joining 1 0 0, joining 2 500 60]) ∧
      ViewsAgree (SwarmMap.after [joining 1 0 0, joining 2 500 60])
        70000000000 ∧
      Answered [joining 1 0 0] (joining 2 500 60)
        ⟨[⟨.v4 0xCB007105#32, 6881⟩], 1, 1, ⟨0, 0⟩⟩ := by
  have ordered : Ordered [joining 1 0 0, joining 2 500 60] := by
    simp [Ordered, joining]
  have agree := views_agree _ ordered
  have response : ((SwarmMap.after [joining 1 0 0]).announce
      (joining 2 500 60)).1 =
        ⟨[⟨.v4 0xCB007105#32, 6881⟩], 1, 1, ⟨0, 0⟩⟩ := by
    decide +kernel
  exact ⟨agree.1, agree.2.1 _, response ▸ agree.2.2 [joining 1 0 0] _ [] rfl⟩

end Announce

end Sharerr
