import Mathlib.Algebra.GroupWithZero.Nat
import Sharerr.Tracker.Introductions
import Sharerr.Tracker.SwarmMap

/-!
# What has moved

Every announce is answered with what its client has moved since the one before
it.  Nobody else's announces come into that: a client that is away is forgotten
by the same instant whether or not somebody sweeps the swarm before it is back.
Over a stretch of announces in which neither counter goes backwards the answers
add up to what the counters gained, and to what the first of them was counted
for, which is not nothing where a counter had just gone backwards.
-/

namespace Sharerr

namespace Announce

/-- Every announce of a run, and its response. -/
def SwarmMap.answered : SwarmMap → List Announcement →
    List (Announcement × AnnounceResponse)
  | _, [] => []
  | map, announcement :: rest =>
    let (response, next) := map.announce announcement
    (announcement, response) :: next.answered rest

/-- The announces of one peer for one torrent, each with what it was told it
moved. -/
def ledger (infoHash : InfoHash) (peerId : PeerId)
    (announcements : List Announcement) : List (Announcement × Transfer) :=
  ((SwarmMap.answered .empty announcements).filter fun answered =>
    answered.1.isAbout infoHash peerId).map fun answered =>
      (answered.1, answered.2.transferred)

/-- An announce that follows another before it is forgotten, and with neither
counter gone backwards. -/
def Linked (earlier later : Announcement) : Prop :=
  later.now - earlier.now < peerTtl ∧ earlier.request.event ≠ .stopped ∧
    earlier.request.uploaded ≤ later.request.uploaded ∧
      earlier.request.downloaded ≤ later.request.downloaded

instance (earlier later : Announcement) : Decidable (Linked earlier later) :=
  inferInstanceAs (Decidable (_ ∧ _ ∧ _ ∧ _))

/-- What an announce adds to the one before it of the same peer. -/
def measured (previous : Option Announcement) (announcement : Announcement) :
    Transfer :=
  match previous with
  | none => ⟨0, 0⟩
  | some previous =>
    if previous.request.event = .stopped ∨
        peerTtl ≤ announcement.now - previous.now then ⟨0, 0⟩
    else Transfer.since
      (previous.request.uploaded, previous.request.downloaded)
      (announcement.request.uploaded, announcement.request.downloaded)

/-- The ledger of a peer that nobody else announces around. -/
def measuredAlong : Option Announcement → List Announcement →
    List (Announcement × Transfer)
  | _, [] => []
  | previous, announcement :: rest =>
    (announcement, measured previous announcement) ::
      measuredAlong (some announcement) rest

/-- All that a part of the ledger says has moved. -/
def moved (entries : List (Announcement × Transfer)) : Transfer :=
  ⟨(entries.map (·.2.uploaded)).sum, (entries.map (·.2.downloaded)).sum⟩

section Ledger

variable {infoHash : InfoHash} {peerId : PeerId}
variable {past announcements own : List Announcement}
variable {announcement first : Announcement} {previous : Option Announcement}
variable {before rest later : List (Announcement × Transfer)}

theorem transferred_after (ordered : Ordered (past ++ [announcement]))
    (own : announcement.isAbout infoHash peerId = true) :
    ((SwarmMap.after past).announce announcement).1.transferred =
      measured (latest infoHash peerId past) announcement := by
  obtain ⟨rfl, rfl⟩ : announcement.request.infoHash = infoHash ∧
      announcement.request.peerId = peerId := by
    simpa [Announcement.isAbout] using own
  simp only [SwarmMap.announce, get_swept ordered, standing]
  cases latest announcement.request.infoHash announcement.request.peerId
      past with
  | none => rfl
  | some previous =>
    simp only [Option.bind_some, Announcement.standing, measured]
    by_cases stopped : previous.request.event = .stopped
    · simp [stopped]
    · by_cases expired : peerTtl ≤ announcement.now - previous.now
      · have quiet : ¬ announcement.now - previous.now < peerTtl :=
          Nat.not_lt.mpr expired
        simp [stopped, Peer.isLive, Announcement.peer,
          Option.filter_some, quiet, expired]
      · have recent : announcement.now - previous.now < peerTtl :=
          Nat.lt_of_not_le expired
        simp [stopped, Peer.isLive, Announcement.peer,
          Option.filter_some, recent, expired]

theorem answered_after (ordered : Ordered (past ++ announcements)) :
    (((SwarmMap.after past).answered announcements).filter fun answered =>
      answered.1.isAbout infoHash peerId).map (fun answered =>
        (answered.1, answered.2.transferred)) =
      measuredAlong (latest infoHash peerId past)
        (announcements.filter (Announcement.isAbout infoHash peerId)) := by
  induction announcements generalizing past with
  | nil => rfl
  | cons announcement rest ih =>
    rw [List.append_cons] at ordered
    have recent (own : announcement.isAbout infoHash peerId = true) :=
      transferred_after (List.pairwise_append.mp ordered).1 own
    have remaining := ih ordered
    rw [SwarmMap.after_append] at remaining
    by_cases own : announcement.isAbout infoHash peerId = true
    · rw [latest_append_own own] at remaining
      simp [SwarmMap.answered, own, remaining, recent own, measuredAlong]
    · rw [latest_append_other own] at remaining
      simp [SwarmMap.answered, own, remaining]

theorem ledger_eq (ordered : Ordered announcements) :
    ledger infoHash peerId announcements = measuredAlong none
      (announcements.filter (Announcement.isAbout infoHash peerId)) :=
  @answered_after infoHash peerId [] announcements ordered

theorem ledger_filter (ordered : Ordered announcements) :
    ledger infoHash peerId
        (announcements.filter (Announcement.isAbout infoHash peerId)) =
      ledger infoHash peerId announcements := by
  have fewer : Ordered
      (announcements.filter (Announcement.isAbout infoHash peerId)) :=
    List.Pairwise.sublist List.filter_sublist ordered
  rw [ledger_eq ordered, ledger_eq fewer, List.filter_filter]
  simp only [Bool.and_self]

theorem measuredAlong_split
    (listed : measuredAlong previous own = before ++ rest) :
    ∃ following, measuredAlong
      (((before.map (·.1)).getLast?).or previous) following = rest := by
  induction before generalizing previous own with
  | nil => exact ⟨own, listed⟩
  | cons entry before ih =>
    cases own with
    | nil => cases listed
    | cons announcement following =>
      obtain ⟨rfl, remaining⟩ := List.cons.inj listed
      obtain ⟨following, told⟩ := ih remaining
      refine ⟨following, ?_⟩
      rw [← told, List.map_cons, List.getLast?_cons, Option.some_or]
      cases (before.map (·.1)).getLast? <;> rfl

theorem moved_of_linked
    (listed : measuredAlong (some first) own = rest ++ later)
    (linked : (first :: rest.map (·.1)).IsChain Linked) :
    first.request.uploaded + (moved rest).uploaded =
        ((first :: rest.map (·.1)).getLast
          (List.cons_ne_nil _ _)).request.uploaded ∧
      first.request.downloaded + (moved rest).downloaded =
        ((first :: rest.map (·.1)).getLast
          (List.cons_ne_nil _ _)).request.downloaded := by
  induction rest generalizing first own with
  | nil => exact ⟨rfl, rfl⟩
  | cons entry rest ih =>
    cases own with
    | nil => cases listed
    | cons announcement following =>
      obtain ⟨rfl, remaining⟩ := List.cons.inj listed
      obtain ⟨link, linked⟩ := List.isChain_cons_cons.mp linked
      obtain ⟨recent, staying, up, down⟩ : Linked first announcement := link
      have added : measured (some first) announcement =
          ⟨announcement.request.uploaded - first.request.uploaded,
            announcement.request.downloaded -
              first.request.downloaded⟩ := by
        have known : ¬ (first.request.event = .stopped ∨
            peerTtl ≤ announcement.now - first.now) := by
          rintro (stopped | expired)
          · exact staying stopped
          · exact Nat.not_lt.mpr expired recent
        simp only [measured, if_neg known, Transfer.since, step, if_pos up,
          if_pos down]
      obtain ⟨uploaded, downloaded⟩ := ih remaining linked
      simp only [List.map_cons, List.getLast_cons_cons]
        at uploaded downloaded ⊢
      rw [← uploaded, ← downloaded]
      simp only [moved, List.map_cons, List.sum_cons, added]
      omega

end Ledger

/-- The last announce of a part of the ledger that is not empty. -/
def lastOf (first : Announcement × Transfer)
    (rest : List (Announcement × Transfer)) : Announcement :=
  (first.1 :: rest.map (·.1)).getLast (List.cons_ne_nil _ _)

/-- What a part of the ledger adds up to, the first announce counted for
`carried`. -/
def gained (carried : Transfer) (first last : Announcement) : Transfer :=
  ⟨carried.uploaded + (last.request.uploaded - first.request.uploaded),
    carried.downloaded + (last.request.downloaded - first.request.downloaded)⟩

/-- In every run of announces a peer is told what it would be told alone, and
over linked announces of its own that adds up to what its counters gained and
what the first of them was counted for. -/
theorem accounted (infoHash : InfoHash) (peerId : PeerId)
    (announcements : List Announcement) (ordered : Ordered announcements) :
    ledger infoHash peerId announcements =
        ledger infoHash peerId
          (announcements.filter (Announcement.isAbout infoHash peerId)) ∧
      ∀ before first rest later,
        ledger infoHash peerId announcements =
            before ++ first :: rest ++ later →
          ((first :: rest).map (·.1)).IsChain Linked →
            first.2 = measured (before.map (·.1)).getLast? first.1 ∧
              moved (first :: rest) =
                gained first.2 first.1 (lastOf first rest) := by
  refine ⟨(ledger_filter ordered).symm, ?_⟩
  intro before first rest later listed linked
  rw [ledger_eq ordered, List.append_assoc] at listed
  obtain ⟨following, told⟩ := measuredAlong_split listed
  rw [Option.or_none] at told
  cases following with
  | nil => cases told
  | cons announcement following =>
    obtain ⟨rfl, remaining⟩ := List.cons.inj told
    obtain ⟨uploaded, downloaded⟩ := moved_of_linked remaining linked
    refine ⟨rfl, ?_⟩
    simp only [gained, lastOf, ← uploaded, ← downloaded, moved,
      List.map_cons, List.sum_cons, Nat.add_sub_cancel_left]

/-- Every stretch of linked announces that goes on as far as it can adds up to
what its counters gained. -/
def Lossless (infoHash : InfoHash) (peerId : PeerId)
    (announcements : List Announcement) : Prop :=
  ∀ before first rest later,
    ledger infoHash peerId announcements = before ++ first :: rest ++ later →
      ((first :: rest).map (·.1)).IsChain Linked →
        (∀ previous ∈ before.getLast?, ¬ Linked previous.1 first.1) →
          (∀ next ∈ later.head?, ¬ Linked (lastOf first rest) next.1) →
            moved (first :: rest) =
              gained ⟨0, 0⟩ first.1 (lastOf first rest)

def someTorrent : InfoHash := ⟨List.replicate 20 9, rfl⟩

def someClient : PeerId := ⟨List.replicate 20 1, rfl⟩

/-- A client that seeds, some seconds in. -/
def seeding (uploaded seconds : Nat) : Announcement where
  request := {
    infoHash := someTorrent
    peerId := someClient
    port := 6881
    left := 0
    uploaded
    downloaded := 0
    event := .none
    compact := true
    numwant := 50
    declaredIp := none }
  addr := ⟨.v4 0xCB007105#32, 6881⟩
  now := seconds * 1000000000
  iteration := asListed

/-- What another client reports of the torrent between the two. -/
def alongside : Announcement :=
  { seeding 400 900 with
    request := { (seeding 400 900).request with
      peerId := ⟨List.replicate 20 2, rfl⟩ } }

/-- Two announces of one client, another's in between. -/
def mixed : List Announcement :=
  [seeding 10 0, alongside, seeding 15 1800]

theorem growth_accounted :
    Ordered mixed ∧
      ledger someTorrent someClient mixed =
        ledger someTorrent someClient
          (mixed.filter (Announcement.isAbout someTorrent someClient)) ∧
      mixed.filter (Announcement.isAbout someTorrent someClient) =
        [seeding 10 0, seeding 15 1800] ∧
      moved [(seeding 10 0, ⟨0, 0⟩), (seeding 15 1800, ⟨5, 0⟩)] =
        gained ⟨0, 0⟩ (seeding 10 0) (seeding 15 1800) := by
  have ordered : Ordered mixed := by simp [Ordered, mixed, alongside, seeding]
  have told := accounted someTorrent someClient mixed ordered
  exact ⟨ordered, told.1, rfl,
    (told.2 [] _ [(seeding 15 1800, ⟨5, 0⟩)] [] rfl (by decide +kernel)).2⟩

/-- The client starts the torrent again, and the five it then reports are
counted. -/
theorem restart_counted :
    Ordered [seeding 10 0, seeding 5 1800, seeding 7 3600] ∧
      ¬ Lossless someTorrent someClient
        [seeding 10 0, seeding 5 1800, seeding 7 3600] := by
  refine ⟨by simp [Ordered, seeding], ?_⟩
  intro lossless
  have settled := lossless [(seeding 10 0, ⟨0, 0⟩)] (seeding 5 1800, ⟨5, 0⟩)
    [(seeding 7 3600, ⟨2, 0⟩)] [] rfl (by decide +kernel)
    (by simp [Linked, seeding]) (by simp)
  exact absurd settled (by decide)

end Announce

end Sharerr
