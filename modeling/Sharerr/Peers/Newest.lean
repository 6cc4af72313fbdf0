import Sharerr.Peers.History

/-!
# Sightings in any order

Sightings with timestamps of their own, recorded in any order, leave the newest
one of each of the addresses that were seen last.  An address that was evicted
may come back with an older sighting; pruning drops it again.
-/

namespace Sharerr

/-- The newest sighting of each address. -/
def latest (seen : List Sighting) : List Sighting :=
  seen.filter fun sighting => ∀ other ∈ seen,
    other.addr = sighting.addr → other.observedAt ≤ sighting.observedAt

def Sighting.newer (left right : Sighting) : Prop :=
  right.observedAt ≤ left.observedAt

/-- No two different sightings have the same timestamp. -/
def Apart (seen : List Sighting) : Prop :=
  ∀ one ∈ seen, ∀ other ∈ seen, one.observedAt = other.observedAt →
    one = other

instance : DecidableRel Sighting.newer := fun _ _ =>
  inferInstanceAs (Decidable (_ ≤ _))

instance : Std.Total Sighting.newer := ⟨fun _ _ => le_total _ _⟩

instance : IsTrans Sighting Sighting.newer :=
  ⟨fun _ _ _ first second => le_trans second first⟩

/-- The addresses that were seen last, each with its newest sighting. -/
def newest (history : Nat) (seen : List Sighting) : List Sighting :=
  Limited.first Sighting.newer history (latest seen)

namespace EndpointTable

/-- Record sightings of one peer and kind, each at a reading of the clock. -/
def recordAll (table : EndpointTable) (history peerId : Nat)
    (kind : EndpointKind) (calls : List (Int × Sighting)) : EndpointTable :=
  calls.foldl (fun table call =>
    table.recordPeerEndpoint history call.1 peerId kind call.2.addr
      (some call.2.observedAt) call.2.via) table

end EndpointTable

section Latest

variable {seen : List Sighting} {sighting fresh : Sighting}

theorem mem_latest : sighting ∈ latest seen ↔ sighting ∈ seen ∧
    ∀ other ∈ seen, other.addr = sighting.addr →
      other.observedAt ≤ sighting.observedAt := by
  simp [latest]

theorem mem_latest_append : sighting ∈ latest (seen ++ [fresh]) ↔
    (sighting ∈ latest seen ∧ (fresh.addr = sighting.addr →
      fresh.observedAt ≤ sighting.observedAt)) ∨
    (sighting = fresh ∧ ∀ other ∈ seen, other.addr = fresh.addr →
      other.observedAt ≤ fresh.observedAt) := by
  simp only [mem_latest, List.mem_append, List.mem_singleton]
  constructor
  · rintro ⟨old | rfl, all⟩
    · exact .inl ⟨⟨old, fun other member => all other (.inl member)⟩,
        all fresh (.inr rfl)⟩
    · exact .inr ⟨rfl, fun other member => all other (.inl member)⟩
  · rintro (⟨⟨old, all⟩, newer⟩ | ⟨rfl, all⟩)
    · refine ⟨.inl old, ?_⟩
      rintro other (member | rfl) same
      · exact all other member same
      · exact newer same
    · refine ⟨.inr rfl, ?_⟩
      rintro other (member | rfl) same
      · exact all other member same
      · exact le_refl _

theorem exists_latest (member : sighting ∈ seen) :
    ∃ last ∈ latest seen, last.addr = sighting.addr ∧
      sighting.observedAt ≤ last.observedAt := by
  induction seen using List.reverseRecOn generalizing sighting with
  | nil => cases member
  | append_singleton seen fresh ih =>
    by_cases first : ∀ other ∈ seen, other.addr = fresh.addr →
        other.observedAt ≤ fresh.observedAt
    · rcases List.mem_append.mp member with old | new
      · obtain ⟨last, isLast, same, newer⟩ := ih old
        by_cases own : fresh.addr = last.addr
        · refine ⟨fresh, mem_latest_append.mpr (.inr ⟨rfl, first⟩),
            own.trans same, newer.trans ?_⟩
          exact first last (mem_latest.mp isLast).1 own.symm
        · exact ⟨last, mem_latest_append.mpr
            (.inl ⟨isLast, fun clash => absurd clash own⟩), same, newer⟩
      · obtain rfl := List.mem_singleton.mp new
        exact ⟨_, mem_latest_append.mpr (.inr ⟨rfl, first⟩), rfl, le_refl _⟩
    · push Not at first
      obtain ⟨other, among, same, newer⟩ := first
      -- the newest of that address stays the newest
      have kept : ∀ {last}, last ∈ latest seen →
          last ∈ latest (seen ++ [fresh]) := by
        intro last isLast
        refine mem_latest_append.mpr (.inl ⟨isLast, fun own => ?_⟩)
        have := (mem_latest.mp isLast).2 other among (same.trans own)
        omega
      rcases List.mem_append.mp member with old | new
      · obtain ⟨last, isLast, alike, later⟩ := ih old
        exact ⟨last, kept isLast, alike, later⟩
      · obtain rfl := List.mem_singleton.mp new
        obtain ⟨last, isLast, alike, later⟩ := ih among
        exact ⟨last, kept isLast, alike.trans same, by omega⟩

end Latest

namespace EndpointTable

/-- The rows are newest sightings, and whoever is missing was seen before all of
as many as are kept. -/
structure Holds (history : Nat) (seen : List Sighting)
    (rows : List EndpointRow) : Prop where
  genuine : ∀ row ∈ rows, row.sighting ∈ latest seen
  full : ∀ missing ∈ latest seen, (∀ row ∈ rows, row.sighting ≠ missing) →
    rows.length = history ∧
      ∀ row ∈ rows, missing.observedAt < row.observedAt

section Step

variable {history : Nat} {seen : List Sighting} {fresh : EndpointRow}
variable {before after : List EndpointRow}

theorem Holds.missing_older (holds : Holds history seen before)
    (tidy : Tidy history fresh.id before)
    (unknown : ∀ row ∈ before, row.addr ≠ fresh.addr)
    (pruned : Pruned history (before ++ [fresh]) after) {missing : Sighting}
    (isLast : missing ∈ latest seen)
    (absent : ∀ row ∈ before, row.sighting ≠ missing) :
    after.length = history ∧
      ∀ row ∈ after, missing.observedAt < row.observedAt := by
  obtain ⟨count, above⟩ := holds.full missing isLast absent
  -- a new row leaves out another, and whoever was missing is older than that
  obtain ⟨left, member, leftOut⟩ := tidy.exists_left unknown pruned count
  refine ⟨pruned.full member leftOut, fun row kept => ?_⟩
  rcases List.mem_append.mp (pruned.mem_of_mem kept) with old | new
  · exact above row old
  · obtain rfl := List.mem_singleton.mp new
    rcases List.mem_append.mp member with leftOld | leftNew
    · have order := pruned.older row kept left member leftOut
      have := above left leftOld
      unfold newestFirst at order
      omega
    · exact absurd (List.mem_singleton.mp leftNew ▸ kept) leftOut

theorem Holds.latest_of_added (holds : Holds history seen before)
    (tidy : Tidy history fresh.id before)
    (unknown : ∀ row ∈ before, row.addr ≠ fresh.addr)
    (pruned : Pruned history (before ++ [fresh]) after)
    (kept : fresh ∈ after) : ∀ other ∈ seen, other.addr = fresh.addr →
      other.observedAt ≤ fresh.observedAt := by
  intro other among same
  by_contra newer
  obtain ⟨last, isLast, alike, later⟩ := exists_latest among
  have evicted : ∀ row ∈ before, row.sighting ≠ last := by
    rintro row member rfl
    exact unknown row member (alike.trans same)
  have above := (holds.missing_older tidy unknown pruned isLast evicted).2
    fresh kept
  omega

theorem Pruned.dropped_older {rows : List EndpointRow}
    (pruned : Pruned history rows after)
    (apart : ∀ left ∈ rows, ∀ row ∈ rows, left.observedAt = row.observedAt →
      left.sighting = row.sighting) {left : EndpointRow} (member : left ∈ rows)
    (absent : ∀ row ∈ after, row.sighting ≠ left.sighting) :
    after.length = history ∧
      ∀ row ∈ after, left.observedAt < row.observedAt := by
  have leftOut : left ∉ after := fun kept => absent left kept rfl
  refine ⟨pruned.full member leftOut, fun row kept => ?_⟩
  have order := pruned.older row kept left member leftOut
  have different : left.observedAt ≠ row.observedAt := fun equal =>
    absent row kept
      (apart left member row (pruned.mem_of_mem kept) equal).symm
  unfold newestFirst at order
  omega

theorem Holds.added (holds : Holds history seen before)
    (tidy : Tidy history fresh.id before)
    (distinct : Apart (seen ++ [fresh.sighting]))
    (unknown : ∀ row ∈ before, row.addr ≠ fresh.addr)
    (pruned : Pruned history (before ++ [fresh]) after) :
    Holds history (seen ++ [fresh.sighting]) after := by
  have apart : ∀ left ∈ before ++ [fresh], ∀ row ∈ before ++ [fresh],
      left.observedAt = row.observedAt → left.sighting = row.sighting := by
    have among : ∀ row ∈ before ++ [fresh],
        row.sighting ∈ seen ++ [fresh.sighting] := by
      intro row member
      rcases List.mem_append.mp member with old | new
      · exact List.mem_append_left _
          (mem_latest.mp (holds.genuine row old)).1
      · exact List.mem_append_right _
          (List.mem_singleton.mp new ▸ List.mem_singleton_self _)
    intro left leftMember row rowMember equal
    exact distinct _ (among left leftMember) _ (among row rowMember) equal
  constructor
  · intro row member
    rcases List.mem_append.mp (pruned.mem_of_mem member) with old | new
    · exact mem_latest_append.mpr (.inl ⟨holds.genuine row old,
        fun clash => absurd clash.symm (unknown row old)⟩)
    · obtain rfl := List.mem_singleton.mp new
      exact mem_latest_append.mpr (.inr ⟨rfl,
        holds.latest_of_added tidy unknown pruned member⟩)
  · intro missing isLast absent
    rcases mem_latest_append.mp isLast with ⟨wasLast, -⟩ | ⟨rfl, -⟩
    · by_cases had : ∃ row ∈ before, row.sighting = missing
      · obtain ⟨row, member, rfl⟩ := had
        exact pruned.dropped_older apart (List.mem_append_left _ member) absent
      · push Not at had
        exact holds.missing_older tidy unknown pruned wasLast had
    · exact pruned.dropped_older apart
        (List.mem_append_right _ (List.mem_singleton_self _)) absent

theorem Holds.renew {known : EndpointRow}
    (holds : Holds history seen before) (tidy : Tidy history fresh.id before)
    (member : known ∈ before) (same : known.addr = fresh.addr)
    (newer : known.observedAt < fresh.observedAt) :
    Holds history (seen ++ [fresh.sighting])
      (before.map (renewed fresh.addr fresh.observedAt fresh.via)) := by
  have knownLast := (mem_latest.mp (holds.genuine known member)).2
  have freshLast : fresh.sighting ∈ latest (seen ++ [fresh.sighting]) := by
    refine mem_latest_append.mpr (.inr ⟨rfl, fun other among alike => ?_⟩)
    have := knownLast other among (alike.trans same.symm)
    exact this.trans newer.le
  have written : ∀ row ∈ before, row.addr = fresh.addr →
      (renewed fresh.addr fresh.observedAt fresh.via row).sighting =
        fresh.sighting := by
    intro row _ named
    unfold renewed
    rw [if_pos named]
    simp [EndpointRow.sighting, named]
  have other : ∀ row ∈ before, row.addr ≠ fresh.addr →
      renewed fresh.addr fresh.observedAt fresh.via row = row :=
    fun row _ named => if_neg named
  constructor
  · intro row among
    obtain ⟨old, oldMember, rfl⟩ := List.mem_map.mp among
    by_cases named : old.addr = fresh.addr
    · rw [written old oldMember named]
      exact freshLast
    · rw [other old oldMember named]
      exact mem_latest_append.mpr (.inl ⟨holds.genuine old oldMember,
        fun clash => absurd clash.symm named⟩)
  · intro missing isLast absent
    rcases mem_latest_append.mp isLast with ⟨wasLast, notOlder⟩ | ⟨rfl, -⟩
    · have elsewhere : missing.addr ≠ fresh.addr := by
        intro clash
        have old := knownLast missing (mem_latest.mp wasLast).1
          (clash.trans same.symm)
        have new := notOlder clash.symm
        change fresh.observedAt ≤ missing.observedAt at new
        change missing.observedAt ≤ known.observedAt at old
        omega
      have absentBefore : ∀ row ∈ before, row.sighting ≠ missing := by
        rintro row among rfl
        refine absent row (List.mem_map.mpr ⟨row, among, ?_⟩) rfl
        exact other row among elsewhere
      obtain ⟨count, above⟩ := holds.full missing wasLast absentBefore
      refine ⟨by rw [List.length_map, count], fun row among => ?_⟩
      obtain ⟨old, oldMember, rfl⟩ := List.mem_map.mp among
      by_cases named : old.addr = fresh.addr
      · have knownIs := tidy.eq_of_addr oldMember member
          (named.trans same.symm)
        subst knownIs
        unfold renewed
        rw [if_pos named]
        exact (above old oldMember).trans newer
      · rw [other old oldMember named]
        exact above old oldMember
    · exact absurd (written known member same) (absent _
        (List.mem_map.mpr ⟨known, member, rfl⟩))

theorem Holds.ignored {known : EndpointRow}
    (holds : Holds history seen before) (member : known ∈ before)
    (same : known.addr = fresh.addr)
    (apart : Apart (seen ++ [fresh.sighting]))
    (older : fresh.observedAt ≤ known.observedAt) :
    Holds history (seen ++ [fresh.sighting]) before := by
  have knownLast := mem_latest.mp (holds.genuine known member)
  have stays : ∀ {sighting}, sighting ∈ latest seen →
      sighting ∈ latest (seen ++ [fresh.sighting]) := by
    intro sighting isLast
    refine mem_latest_append.mpr (.inl ⟨isLast, fun named => ?_⟩)
    have := (mem_latest.mp isLast).2 known.sighting knownLast.1
      (same.trans named)
    exact older.trans this
  refine ⟨fun row among => stays (holds.genuine row among), ?_⟩
  intro missing isLast absent
  rcases mem_latest_append.mp isLast with ⟨wasLast, -⟩ | ⟨rfl, all⟩
  · exact holds.full missing wasLast absent
  · have newest := all known.sighting knownLast.1 same
    exact absurd (apart _ (List.mem_append_left _ knownLast.1) _
      (List.mem_append_right _ List.mem_cons_self)
      (le_antisymm newest older)) (absent known member)

theorem Holds.step (holds : Holds history seen before)
    (tidy : Tidy history fresh.id before)
    (apart : Apart (seen ++ [fresh.sighting]))
    (recorded : Recorded history fresh true before after) :
    Holds history (seen ++ [fresh.sighting]) after := by
  cases recorded with
  | added unknown pruned =>
    exact holds.added tidy apart unknown pruned
  | renewed known member same _ newer written =>
    rw [written]
    exact holds.renew tidy member same newer
  | ignored known member same older kept =>
    rw [kept]
    exact holds.ignored member same apart (older rfl)

end Step

section Run

variable {table : EndpointTable} {history peerId : Nat} {kind : EndpointKind}
variable {calls : List (Int × Sighting)}

theorem stamp_of_past {now observed : Int} (past : observed ≤ now)
    (bounded : observed ≤ Rust.i64Max) :
    stamp now (some observed) = observed := by
  simp only [stamp, Rust.saturatingAdd, maxFutureSkewSecs]
  omega

theorem recordAll_apart (unknown : table.ofPair peerId kind = [])
    (apart : Apart (calls.map (·.2)))
    (past : ∀ call ∈ calls, call.2.observedAt ≤ call.1 ∧
      call.2.observedAt ≤ Rust.i64Max) :
    let after := table.recordAll history peerId kind calls
    Holds history (calls.map (·.2)) (after.ofPair peerId kind) ∧
      Tidy history after.nextId (after.ofPair peerId kind) ∧
        after.ofOthers peerId kind = table.ofOthers peerId kind := by
  induction calls using List.reverseRecOn with
  | nil =>
    simp only [recordAll, List.foldl_nil, unknown]
    exact ⟨⟨nofun, nofun⟩, ⟨.nil, .nil, nofun, Nat.zero_le _⟩, trivial⟩
  | append_singleton calls call ih =>
    rw [List.map_append] at apart
    obtain ⟨holds, tidy, others⟩ := ih
      (fun one member other among => apart one
        (List.mem_append_left _ member) other (List.mem_append_left _ among))
      fun earlier member => past earlier (List.mem_append_left _ member)
    have here := past call (List.mem_append_right _ List.mem_cons_self)
    obtain ⟨recorded, tidied, kept⟩ := recordPeerEndpoint_recorded
      call.1 call.2.addr (some call.2.observedAt) call.2.via tidy
    have stamped := stamp_of_past here.1 here.2
    have fresh : (EndpointTable.freshRow
        (table.recordAll history peerId kind calls) call.1 peerId kind
        call.2.addr (some call.2.observedAt) call.2.via).sighting =
          call.2 := by
      simp only [freshRow, EndpointRow.sighting, stamped]
    have stepped := holds.step tidy (fresh.symm ▸ apart) recorded
    rw [fresh] at stepped
    simp only [recordAll, List.foldl_append, List.foldl_cons,
      List.foldl_nil, List.map_append, List.map_cons, List.map_nil] at *
    exact ⟨stepped, tidied, kept.trans others⟩

end Run

theorem perm_newest {history : Nat} {seen : List Sighting}
    {rows : List EndpointRow} {nextId : Nat}
    (holds : Holds history seen rows) (tidy : Tidy history nextId rows)
    (distinct : (seen.map (·.observedAt)).Nodup) :
    (rows.map EndpointRow.sighting).Perm (newest history seen) := by
  have nodup : (rows.map EndpointRow.sighting).Nodup := by
    refine List.Nodup.of_map (·.addr) ?_
    simpa [Function.comp_def, EndpointRow.sighting] using tidy.addrs
  refine Limited.perm_first ((List.Nodup.of_map _ distinct).filter _) nodup
    ?_ ?_ ?_
  · intro sighting member
    obtain ⟨row, among, rfl⟩ := List.mem_map.mp member
    exact holds.genuine row among
  · rw [List.length_map]
    exact tidy.few
  · intro missing isLast absent
    obtain ⟨count, above⟩ := holds.full missing isLast
      fun row among same => absent (List.mem_map.mpr ⟨row, among, same⟩)
    refine ⟨by rw [List.length_map, count], ?_⟩
    rintro sighting member newer
    obtain ⟨row, among, rfl⟩ := List.mem_map.mp member
    exact absurd (above row among) (not_lt.mpr newer)

/-- The history as it is read is the newest sightings, newest first. -/
theorem historyOf_eq_newest {table : EndpointTable} {history peerId : Nat}
    {kind : EndpointKind} {seen : List Sighting}
    (holds : Holds history seen (table.ofPair peerId kind))
    (tidy : Tidy history table.nextId (table.ofPair peerId kind))
    (distinct : (seen.map (·.observedAt)).Nodup) :
    (table.historyOf peerId kind).map EndpointRow.sighting =
      newest history seen := by
  have perm : ((table.historyOf peerId kind).map EndpointRow.sighting).Perm
      (newest history seen) :=
    ((List.perm_insertionSort _ _).map _).trans
      (perm_newest holds tidy distinct)
  have sorted : ((table.historyOf peerId kind).map
      EndpointRow.sighting).Pairwise Sighting.newer := by
    rw [List.pairwise_map]
    refine (List.pairwise_insertionSort newestFirst _).imp ?_
    intro left right order
    unfold newestFirst at order
    change right.observedAt ≤ left.observedAt
    omega
  have newestSorted : (newest history seen).Pairwise Sighting.newer :=
    (List.pairwise_insertionSort _ _).sublist (List.take_sublist _ _)
  refine perm.eq_of_pairwise ?_ sorted newestSorted
  intro left right leftMember rightMember one other
  have among : ∀ {sighting}, sighting ∈ newest history seen →
      sighting ∈ seen := fun member =>
    (mem_latest.mp (Limited.mem_of_mem_first member)).1
  exact List.inj_on_of_nodup_map distinct
    (among (perm.mem_iff.mp leftMember)) (among rightMember)
    (le_antisymm other one)

theorem Holds.of_mem {history : Nat} {heard seen : List Sighting}
    {rows : List EndpointRow} (holds : Holds history heard rows)
    (same : ∀ sighting, sighting ∈ heard ↔ sighting ∈ seen) :
    Holds history seen rows := by
  have alike : ∀ sighting, sighting ∈ latest seen ↔
      sighting ∈ latest heard := by
    intro sighting
    simp only [mem_latest, same]
  refine ⟨fun row member => (alike _).mpr (holds.genuine row member), ?_⟩
  intro missing isLast absent
  exact holds.full missing ((alike _).mp isLast) absent

/-- Sightings told in any order and however often are all recorded. -/
theorem recordAll_told {table : EndpointTable} {history peerId : Nat}
    {kind : EndpointKind} {seen : List Sighting} {calls : List (Int × Sighting)}
    (unknown : table.ofPair peerId kind = [])
    (distinct : (seen.map (·.observedAt)).Nodup)
    (told : ∀ sighting, sighting ∈ calls.map (·.2) ↔ sighting ∈ seen)
    (past : ∀ call ∈ calls, call.2.observedAt ≤ call.1 ∧
      call.2.observedAt ≤ Rust.i64Max) :
    let after := table.recordAll history peerId kind calls
    Holds history seen (after.ofPair peerId kind) ∧
      Tidy history after.nextId (after.ofPair peerId kind) ∧
        after.ofOthers peerId kind = table.ofOthers peerId kind := by
  intro after
  have apart : Apart (calls.map (·.2)) := by
    intro one member other among
    exact List.inj_on_of_nodup_map distinct ((told one).mp member)
      ((told other).mp among)
  obtain ⟨holds, tidy, others⟩ := recordAll_apart unknown apart past
  exact ⟨holds.of_mem told, tidy, others⟩

/-- Recorded in any order, sightings with different timestamps leave the same
history: the newest one of each of the addresses seen last. -/
theorem sightings_commute (table : EndpointTable) (history peerId : Nat)
    (kind : EndpointKind) (seen : List Sighting)
    (calls : List (Int × Sighting))
    (unknown : table.ofPair peerId kind = [])
    (distinct : (seen.map (·.observedAt)).Nodup)
    (order : (calls.map (·.2)).Perm seen)
    (past : ∀ call ∈ calls, call.2.observedAt ≤ call.1 ∧
      call.2.observedAt ≤ Rust.i64Max) :
    let after := table.recordAll history peerId kind calls
    (after.historyOf peerId kind).map EndpointRow.sighting =
        newest history seen ∧
      after.ofOthers peerId kind = table.ofOthers peerId kind := by
  intro after
  obtain ⟨holds, tidy, others⟩ :=
    recordAll_told unknown distinct (fun _ => order.mem_iff) past
  exact ⟨historyOf_eq_newest holds tidy distinct, others⟩

/-- The client's exit moved from one address to another and back, and the news
of it arrived late. -/
def moved : List Sighting :=
  [⟨"198.51.100.7:1", 100, .direct⟩, ⟨"203.0.113.5:1", 200, .gossip⟩,
    ⟨"198.51.100.7:1", 300, .lighthouse⟩, ⟨"192.0.2.9:1", 50, .direct⟩]

theorem moved_in_any_order :
    ((EndpointTable.empty.recordAll 2 1 .api
      [(400, ⟨"203.0.113.5:1", 200, .gossip⟩),
        (400, ⟨"198.51.100.7:1", 300, .lighthouse⟩),
        (401, ⟨"192.0.2.9:1", 50, .direct⟩),
        (402, ⟨"198.51.100.7:1", 100, .direct⟩)]).historyOf 1 .api).map
          EndpointRow.sighting =
      [⟨"198.51.100.7:1", 300, .lighthouse⟩,
        ⟨"203.0.113.5:1", 200, .gossip⟩] :=
  (sightings_commute .empty 2 1 .api moved _ rfl (by decide) (by decide)
    (by decide)).1

/-- Recorded in any order and however often, the same sightings leave the same
history. -/
theorem sightings_settle (table : EndpointTable) (history peerId : Nat)
    (kind : EndpointKind) (seen : List Sighting)
    (calls : List (Int × Sighting))
    (unknown : table.ofPair peerId kind = [])
    (distinct : (seen.map (·.observedAt)).Nodup)
    (told : ∀ sighting, sighting ∈ calls.map (·.2) ↔ sighting ∈ seen)
    (past : ∀ call ∈ calls, call.2.observedAt ≤ call.1 ∧
      call.2.observedAt ≤ Rust.i64Max) :
    let after := table.recordAll history peerId kind calls
    (after.historyOf peerId kind).map EndpointRow.sighting =
        newest history seen ∧
      after.ofOthers peerId kind = table.ofOthers peerId kind := by
  intro after
  obtain ⟨holds, tidy, others⟩ := recordAll_told unknown distinct told past
  exact ⟨historyOf_eq_newest holds tidy distinct, others⟩

/-- What was evicted is told again. -/
theorem moved_told_twice :
    ((EndpointTable.empty.recordAll 2 1 .api
      ((moved ++ moved).map ((400, ·)))).historyOf 1 .api).map
          EndpointRow.sighting =
      [⟨"198.51.100.7:1", 300, .lighthouse⟩,
        ⟨"203.0.113.5:1", 200, .gossip⟩] :=
  (sightings_settle .empty 2 1 .api moved _ rfl (by decide)
    (fun sighting => by simp) (by decide)).1

end EndpointTable

end Sharerr
