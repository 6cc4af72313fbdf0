import Sharerr.Peers.History
import Sharerr.Process.Pool

/-!
# Sightings without a timestamp

A sighting without a timestamp is stored under the clock's reading, and what
comes later takes that for a real one: it hides a genuine sighting of the same
address from before that reading, and counts where the history is pruned.
-/

namespace Sharerr

/-- One call of `record_peer_endpoint` for a peer and kind. -/
structure Observation where
  now : Int
  addr : String
  observedAt : Option Int
  via : ObservedVia
deriving DecidableEq, Repr

def Observation.stamp (call : Observation) : Int :=
  EndpointTable.stamp call.now call.observedAt

def Observation.sighting (call : Observation) : Sighting :=
  ⟨call.addr, call.stamp, call.via⟩

/-- The address has been sighted with a timestamp. -/
def Sighted (past : List Observation) (addr : String) : Prop :=
  ∃ call ∈ past, call.addr = addr ∧ call.observedAt.isSome = true

/-- The address has been sighted without one. -/
def Restored (past : List Observation) (addr : String) : Prop :=
  ∃ call ∈ past, call.addr = addr ∧ call.observedAt.isSome = false

instance (past : List Observation) (addr : String) :
    Decidable (Sighted past addr) :=
  inferInstanceAs (Decidable (∃ call ∈ past, _))

instance (past : List Observation) (addr : String) :
    Decidable (Restored past addr) :=
  inferInstanceAs (Decidable (∃ call ∈ past, _))

namespace EndpointTable

/-- The calls, one after the other. -/
def observeAll (table : EndpointTable) (history peerId : Nat)
    (kind : EndpointKind) (calls : List Observation) : EndpointTable :=
  calls.foldl (fun table call => table.recordPeerEndpoint history call.now
    peerId kind call.addr call.observedAt call.via) table

/-- The call needs a row of its own. -/
def Unknown (rows : List EndpointRow) (call : Observation) : Prop :=
  ∀ row ∈ rows, row.addr ≠ call.addr

instance (rows : List EndpointRow) (call : Observation) :
    Decidable (Unknown rows call) :=
  inferInstanceAs (Decidable (∀ row ∈ rows, _))

/-- A call that does not let a sighting without a timestamp outrank one with a
timestamp, where the history holds `rows`. -/
structure Fair (history : Nat) (past : List Observation)
    (rows : List EndpointRow) (call : Observation) : Prop where
  /-- Without a timestamp, it does not take the place of a genuine sighting. -/
  fills : call.observedAt.isSome = false → Unknown rows call →
    rows.length = history → ∀ row ∈ rows, Oldest rows row →
      Sighted past row.addr → call.now < row.observedAt
  /-- With one, it is later than what was restored of its address. -/
  overtakes : call.observedAt.isSome = true → ∀ row ∈ rows,
    row.addr = call.addr → ¬ Sighted past row.addr →
      row.observedAt < call.stamp ∨
        row.observedAt = call.stamp ∧ row.via = call.via
  /-- With one, it takes the place of a restored address. -/
  displaces : call.observedAt.isSome = true → Unknown rows call →
    rows.length = history → (∃ row ∈ rows, ¬ Sighted past row.addr) →
      ∀ row ∈ rows, Oldest rows row →
        ¬ Sighted past row.addr ∧ row.observedAt ≤ call.stamp
  /-- No restored address comes to a draw where one has to go. -/
  draws : call.observedAt.isSome = true → Unknown rows call →
    rows.length = history → (∀ row ∈ rows, Sighted past row.addr) →
      ∀ row ∈ rows, Oldest rows row → row.observedAt ≤ call.stamp →
        ∀ other ∈ rows, other ≠ row →
          other.observedAt = row.observedAt →
            ¬ Restored past row.addr ∧ ¬ Restored past other.addr

/-- The rows `mixed` of a history beside the rows `real` it would have without
the sightings that have no timestamp. -/
structure Shadows (history : Nat) (past : List Observation)
    (mixed real : List EndpointRow) : Prop where
  kept : ∀ row ∈ real, ∃ shadow ∈ mixed, shadow.sighting = row.sighting
  all : real.length < history → ∀ addr, Sighted past addr →
    ∃ row ∈ real, row.addr = addr
  sighted : ∀ row ∈ real, Sighted past row.addr
  origin : ∀ row ∈ mixed, Sighted past row.addr ∨ Restored past row.addr
  /-- Ids are in the same order where nothing was restored. -/
  order : ∀ first ∈ mixed, ∀ second ∈ mixed, ∀ left ∈ real, ∀ right ∈ real,
    first.addr = left.addr → second.addr = right.addr →
      ¬ Restored past first.addr → ¬ Restored past second.addr →
        first.id < second.id → left.id < right.id

section Shadows

variable {history nextId realId : Nat} {past : List Observation}
variable {call : Observation}
variable {row : EndpointRow}
variable {mixed real mixedAfter realAfter : List EndpointRow}

theorem sighted_append {addr : String} : Sighted (past ++ [call]) addr ↔
    Sighted past addr ∨ call.addr = addr ∧ call.observedAt.isSome = true := by
  simp [Sighted, or_and_right, exists_or]

theorem restored_append {addr : String} : Restored (past ++ [call]) addr ↔
    Restored past addr ∨ call.addr = addr ∧ call.observedAt.isSome = false := by
  simp [Restored, or_and_right, exists_or]

theorem addr_of_sighting {other : EndpointRow}
    (same : other.sighting = row.sighting) : other.addr = row.addr :=
  congrArg Sighting.addr same

theorem Shadows.exists_real (shadows : Shadows history past mixed real)
    (tidy : Tidy history nextId mixed) (realTidy : Tidy history realId real)
    (full : real.length = history) (member : row ∈ mixed) :
    ∃ other ∈ real, other.addr = row.addr := by
  have within : real.map (·.addr) ⊆ mixed.map (·.addr) := by
    intro addr named
    obtain ⟨own, ownReal, rfl⟩ := List.mem_map.mp named
    obtain ⟨shadow, shadowMixed, same⟩ := shadows.kept own ownReal
    exact List.mem_map.mpr ⟨shadow, shadowMixed, addr_of_sighting same⟩
  have perm : (real.map (·.addr)).Perm (mixed.map (·.addr)) := by
    refine (List.subperm_of_subset realTidy.addrs
      within).perm_of_length_le ?_
    rw [List.length_map, List.length_map, full]
    exact tidy.few
  exact List.mem_map.mp (perm.mem_iff.mpr
    (List.mem_map.mpr ⟨row, member, rfl⟩))

theorem Shadows.genuine (shadows : Shadows history past mixed real)
    (tidy : Tidy history nextId mixed) (realTidy : Tidy history realId real)
    (member : row ∈ mixed) (sighted : Sighted past row.addr) :
    ∃ other ∈ real, other.sighting = row.sighting := by
  have named : ∃ other ∈ real, other.addr = row.addr := by
    by_cases full : real.length = history
    · exact shadows.exists_real tidy realTidy full member
    · exact shadows.all (Nat.lt_of_le_of_ne realTidy.few full) _ sighted
  obtain ⟨other, otherReal, same⟩ := named
  obtain ⟨shadow, shadowMixed, alike⟩ := shadows.kept other otherReal
  have shadowIs := tidy.eq_of_addr shadowMixed member
    ((addr_of_sighting alike).trans same)
  exact ⟨other, otherReal, by rw [← alike, shadowIs]⟩

theorem Shadows.room (shadows : Shadows history past mixed real)
    (tidy : Tidy history nextId mixed) (realTidy : Tidy history realId real)
    (member : row ∈ mixed) (restored : ¬ Sighted past row.addr) :
    real.length < history := by
  refine Nat.lt_of_le_of_ne realTidy.few fun full => restored ?_
  obtain ⟨other, otherReal, same⟩ :=
    shadows.exists_real tidy realTidy full member
  rw [← same]
  exact shadows.sighted other otherReal

theorem sighted_bare (bare : call.observedAt.isSome = false) {addr : String} :
    Sighted (past ++ [call]) addr ↔ Sighted past addr := by
  rw [sighted_append, bare]
  simp

/-- After a call without a timestamp, rows of which all but its own were there
before are beside the genuine ones if those still have theirs. -/
theorem Shadows.of_bare {fresh : EndpointRow}
    (shadows : Shadows history past mixed real)
    (bare : call.observedAt.isSome = false) (named : fresh.addr = call.addr)
    (split : ∀ row ∈ mixedAfter, row ∈ mixed ∨ row = fresh)
    (kept : ∀ row ∈ real, ∃ shadow ∈ mixedAfter,
      shadow.sighting = row.sighting) :
    Shadows history (past ++ [call]) mixedAfter real := by
  have restored : Restored (past ++ [call]) fresh.addr :=
    restored_append.mpr (.inr ⟨named.symm, bare⟩)
  refine ⟨kept, ?_, ?_, ?_, ?_⟩
  · intro room addr seen
    exact shadows.all room addr ((sighted_bare bare).mp seen)
  · intro row member
    exact (sighted_bare bare).mpr (shadows.sighted row member)
  · intro row member
    rcases split row member with old | rfl
    · rcases shadows.origin row old with seen | before
      · exact .inl ((sighted_bare bare).mpr seen)
      · exact .inr (restored_append.mpr (.inl before))
    · exact .inr restored
  · have notFresh : ∀ row ∈ mixedAfter, ¬ Restored (past ++ [call]) row.addr →
        row ∈ mixed ∧ ¬ Restored past row.addr := by
      intro row member clean
      rcases split row member with old | rfl
      · exact ⟨old, fun before => clean (restored_append.mpr (.inl before))⟩
      · exact absurd restored clean
    intro first firstMember second secondMember left leftReal right
      rightReal firstNamed secondNamed firstClean secondClean
    obtain ⟨firstOld, firstBefore⟩ := notFresh first firstMember firstClean
    obtain ⟨secondOld, secondBefore⟩ :=
      notFresh second secondMember secondClean
    exact shadows.order first firstOld second secondOld left leftReal
      right rightReal firstNamed secondNamed firstBefore secondBefore

theorem Shadows.untimed {fresh : EndpointRow}
    (shadows : Shadows history past mixed real)
    (tidy : Tidy history fresh.id mixed)
    (fair : Fair history past mixed call)
    (bare : call.observedAt.isSome = false)
    (made : fresh.sighting = call.sighting)
    (recorded : Recorded history fresh false mixed mixedAfter) :
    Shadows history (past ++ [call]) mixedAfter real := by
  have named : fresh.addr = call.addr := congrArg Sighting.addr made
  cases recorded with
  | renewed known member alike real_ newer written => cases real_
  | ignored known member alike older kept =>
    subst kept
    exact shadows.of_bare bare named (fun row member => .inl member)
      shadows.kept
  | added unknown pruned =>
    have split : ∀ row ∈ mixedAfter, row ∈ mixed ∨ row = fresh :=
      fun row member =>
        (List.mem_append.mp (pruned.mem_of_mem member)).imp_right
          List.mem_singleton.mp
    refine shadows.of_bare bare named split fun row member => ?_
    obtain ⟨shadow, shadowMixed, alike⟩ := shadows.kept row member
    refine ⟨shadow, ?_, alike⟩
    by_contra left
    obtain ⟨full, oldest, -, later⟩ :=
      tidy.oldest_of_left unknown pruned shadowMixed left
    have seen : Sighted past shadow.addr := by
      rw [addr_of_sighting alike]
      exact shadows.sighted row member
    have fills := fair.fills bare (fun row among => named ▸ unknown row among)
      full shadow shadowMixed oldest seen
    have stamped : fresh.observedAt = call.now := by
      have none_ : call.observedAt = none := by simpa using bare
      have := congrArg Sighting.observedAt made
      simpa [EndpointRow.sighting, Observation.sighting,
        Observation.stamp, none_, EndpointTable.stamp] using this
    omega

section Timed

variable {fresh realFresh : EndpointRow}

theorem restored_timed (timed : call.observedAt.isSome = true)
    {addr : String} :
    Restored (past ++ [call]) addr ↔ Restored past addr := by
  rw [restored_append, timed]
  simp

theorem sighted_again (seen : Sighted past call.addr) {addr : String} :
    Sighted (past ++ [call]) addr ↔ Sighted past addr := by
  rw [sighted_append]
  constructor
  · rintro (before | ⟨rfl, -⟩)
    · exact before
    · exact seen
  · exact .inl

theorem sighting_renewed {other : EndpointRow} {addr : String} {at_ : Int}
    {via : ObservedVia} (same : other.sighting = row.sighting) :
    (renewed addr at_ via other).sighting =
      (renewed addr at_ via row).sighting := by
  have named := addr_of_sighting same
  unfold renewed
  rw [named]
  split
  · simp [EndpointRow.sighting]
  · exact same

theorem Shadows.renew (shadows : Shadows history past mixed real)
    (timed : call.observedAt.isSome = true) (seen : Sighted past call.addr)
    (addr : String) (at_ : Int) (via : ObservedVia) :
    Shadows history (past ++ [call]) (mixed.map (renewed addr at_ via))
      (real.map (renewed addr at_ via)) := by
  refine ⟨?_, ?_, ?_, ?_, ?_⟩
  · intro row member
    obtain ⟨own, ownReal, rfl⟩ := List.mem_map.mp member
    obtain ⟨shadow, shadowMixed, same⟩ := shadows.kept own ownReal
    exact ⟨_, List.mem_map.mpr ⟨shadow, shadowMixed, rfl⟩,
      sighting_renewed same⟩
  · intro room wanted wantedSeen
    rw [List.length_map] at room
    obtain ⟨row, member, same⟩ :=
      shadows.all room wanted ((sighted_again seen).mp wantedSeen)
    exact ⟨_, List.mem_map.mpr ⟨row, member, rfl⟩, renewed_addr.trans same⟩
  · intro row member
    obtain ⟨own, ownReal, rfl⟩ := List.mem_map.mp member
    rw [renewed_addr]
    exact (sighted_again seen).mpr (shadows.sighted own ownReal)
  · intro row member
    obtain ⟨own, ownMixed, rfl⟩ := List.mem_map.mp member
    rw [renewed_addr, sighted_again seen, restored_timed timed]
    exact shadows.origin own ownMixed
  · intro first firstMember second secondMember left leftMember right
      rightMember
    obtain ⟨first, firstMixed, rfl⟩ := List.mem_map.mp firstMember
    obtain ⟨second, secondMixed, rfl⟩ := List.mem_map.mp secondMember
    obtain ⟨left, leftReal, rfl⟩ := List.mem_map.mp leftMember
    obtain ⟨right, rightReal, rfl⟩ := List.mem_map.mp rightMember
    simp only [renewed_addr, renewed_id, restored_timed timed]
    exact shadows.order first firstMixed second secondMixed left leftReal
      right rightReal

/-- A timestamped sighting of an address that has a genuine row. -/
theorem Shadows.again (shadows : Shadows history past mixed real)
    (tidy : Tidy history fresh.id mixed)
    (realTidy : Tidy history realFresh.id real)
    (made : fresh.sighting = call.sighting)
    (realMade : realFresh.sighting = call.sighting)
    (recorded : Recorded history fresh true mixed mixedAfter)
    (realRecorded : Recorded history realFresh true real realAfter)
    (timed : call.observedAt.isSome = true) {known : EndpointRow}
    (member : known ∈ mixed) (named : known.addr = call.addr)
    (seen : Sighted past call.addr) :
    Shadows history (past ++ [call]) mixedAfter realAfter := by
  have alike := made.trans realMade.symm
  obtain ⟨addrs, times, vias⟩ : fresh.addr = realFresh.addr ∧
      fresh.observedAt = realFresh.observedAt ∧ fresh.via = realFresh.via :=
    ⟨congrArg Sighting.addr alike, congrArg Sighting.observedAt alike,
      congrArg Sighting.via alike⟩
  have freshNamed : fresh.addr = call.addr := congrArg Sighting.addr made
  obtain ⟨own, ownReal, ownIs⟩ :=
    shadows.genuine tidy realTidy member (named ▸ seen)
  have ownNamed : own.addr = realFresh.addr :=
    (addr_of_sighting ownIs).trans (named.trans (freshNamed.symm.trans addrs))
  have ownTime : own.observedAt = known.observedAt :=
    congrArg Sighting.observedAt ownIs
  have knownNamed : known.addr = fresh.addr := named.trans freshNamed.symm
  cases recorded with
  | added unknown pruned => exact absurd knownNamed (unknown known member)
  | renewed other otherMember otherNamed _ newer written =>
    obtain rfl := tidy.eq_of_addr otherMember member
      (otherNamed.trans knownNamed.symm)
    cases realRecorded with
    | added unknown pruned => exact absurd ownNamed (unknown own ownReal)
    | renewed real_ realMember realNamed _ realNewer realWritten =>
      rw [written, realWritten, ← addrs, ← times, ← vias]
      exact shadows.renew timed seen _ _ _
    | ignored real_ realMember realNamed older kept =>
      obtain rfl := realTidy.eq_of_addr realMember ownReal
        (realNamed.trans ownNamed.symm)
      have := older rfl
      omega
  | ignored other otherMember otherNamed older kept =>
    obtain rfl := tidy.eq_of_addr otherMember member
      (otherNamed.trans knownNamed.symm)
    cases realRecorded with
    | added unknown pruned => exact absurd ownNamed (unknown own ownReal)
    | renewed real_ realMember realNamed _ realNewer realWritten =>
      obtain rfl := realTidy.eq_of_addr realMember ownReal
        (realNamed.trans ownNamed.symm)
      have := older rfl
      omega
    | ignored real_ realMember realNamed realOlder realKept =>
      rw [kept, realKept]
      refine ⟨shadows.kept, ?_, ?_, ?_, ?_⟩
      · exact fun room addr found =>
          shadows.all room addr ((sighted_again seen).mp found)
      · exact fun row among =>
          (sighted_again seen).mpr (shadows.sighted row among)
      · intro row among
        rw [sighted_again seen, restored_timed timed]
        exact shadows.origin row among
      · simpa only [restored_timed timed] using shadows.order

/-- What becomes of the rows where a restored address is overtaken. -/
structure Overtaken (call : Observation) (before after : List EndpointRow) :
    Prop where
  there : ∃ row ∈ after, row.sighting = call.sighting
  others : ∀ row ∈ before, row.addr ≠ call.addr → row ∈ after
  alike : ∀ row ∈ after, ∃ old ∈ before, old.addr = row.addr ∧ old.id = row.id

theorem Fair.overtaken (fair : Fair history past mixed call)
    (tidy : Tidy history fresh.id mixed)
    (made : fresh.sighting = call.sighting)
    (recorded : Recorded history fresh true mixed mixedAfter)
    (timed : call.observedAt.isSome = true) {known : EndpointRow}
    (member : known ∈ mixed) (named : known.addr = call.addr)
    (unseen : ¬ Sighted past call.addr) : Overtaken call mixed mixedAfter := by
  have freshNamed : fresh.addr = call.addr := congrArg Sighting.addr made
  have freshTime : fresh.observedAt = call.stamp :=
    congrArg Sighting.observedAt made
  have knownNamed : known.addr = fresh.addr := named.trans freshNamed.symm
  cases recorded with
  | added unknown pruned => exact absurd knownNamed (unknown known member)
  | renewed other otherMember otherNamed _ newer written =>
    subst written
    refine ⟨⟨_, List.mem_map.mpr ⟨known, member, rfl⟩, ?_⟩, ?_, ?_⟩
    · rw [← made]
      unfold renewed
      rw [if_pos knownNamed]
      simp [EndpointRow.sighting, knownNamed]
    · intro row among different
      refine List.mem_map.mpr ⟨row, among, if_neg ?_⟩
      rwa [freshNamed]
    · intro row among
      obtain ⟨old, oldMixed, rfl⟩ := List.mem_map.mp among
      exact ⟨old, oldMixed, renewed_addr.symm, renewed_id.symm⟩
  | ignored other otherMember otherNamed older kept =>
    subst kept
    obtain rfl := tidy.eq_of_addr otherMember member
      (otherNamed.trans knownNamed.symm)
    refine ⟨⟨other, member, ?_⟩, fun row among _ => among, fun row among =>
      ⟨row, among, rfl, rfl⟩⟩
    have notOlder := older rfl
    rcases fair.overtakes timed other member named (named ▸ unseen) with
      earlier | ⟨sameTime, sameVia⟩
    · omega
    · simp only [EndpointRow.sighting, Observation.sighting, named, sameTime,
        sameVia]

theorem Shadows.all_added (shadows : Shadows history past mixed real)
    (room : real.length < history) (realNamed : realFresh.addr = call.addr)
    {addr : String} (seen : Sighted (past ++ [call]) addr) :
    ∃ row ∈ real ++ [realFresh], row.addr = addr := by
  rcases sighted_append.mp seen with before | ⟨rfl, -⟩
  · obtain ⟨row, among, same⟩ := shadows.all room addr before
    exact ⟨row, List.mem_append_left _ among, same⟩
  · exact ⟨realFresh, List.mem_append_right _ List.mem_cons_self, realNamed⟩

theorem Shadows.sighted_added (shadows : Shadows history past mixed real)
    (timed : call.observedAt.isSome = true)
    (realNamed : realFresh.addr = call.addr)
    (member : row ∈ real ++ [realFresh]) :
    Sighted (past ++ [call]) row.addr := by
  rcases List.mem_append.mp member with old | new
  · exact sighted_append.mpr (.inl (shadows.sighted row old))
  · rw [List.mem_singleton.mp new, realNamed]
    exact sighted_append.mpr (.inr ⟨rfl, timed⟩)

theorem Shadows.overtaking (shadows : Shadows history past mixed real)
    (tidy : Tidy history nextId mixed)
    (realTidy : Tidy history realFresh.id real)
    (realMade : realFresh.sighting = call.sighting)
    (overtaken : Overtaken call mixed mixedAfter)
    (realRecorded : Recorded history realFresh true real realAfter)
    (timed : call.observedAt.isSome = true) {known : EndpointRow}
    (member : known ∈ mixed) (named : known.addr = call.addr)
    (unseen : ¬ Sighted past call.addr) :
    Shadows history (past ++ [call]) mixedAfter realAfter := by
  have realNamed : realFresh.addr = call.addr := congrArg Sighting.addr realMade
  have restored : Restored past call.addr := by
    rw [← named] at unseen ⊢
    exact (shadows.origin known member).resolve_left unseen
  have elsewhere : ∀ row ∈ real, row.addr ≠ call.addr :=
    fun row among same => unseen (same ▸ shadows.sighted row among)
  have room := shadows.room tidy realTidy member (named ▸ unseen)
  have grown : realAfter = real ++ [realFresh] := by
    cases realRecorded with
    | added unknown pruned =>
      refine pruned.eq_of_few ?_
      rw [List.length_append]
      exact room
    | renewed other among same _ newer written =>
      exact absurd (same.trans realNamed) (elsewhere other among)
    | ignored other among same older kept =>
      exact absurd (same.trans realNamed) (elsewhere other among)
  subst grown
  refine ⟨?_, fun _ addr => shadows.all_added room realNamed,
    fun row => shadows.sighted_added timed realNamed, ?_, ?_⟩
  · intro row among
    rcases List.mem_append.mp among with old | new
    · obtain ⟨shadow, shadowMixed, same⟩ := shadows.kept row old
      refine ⟨shadow, overtaken.others shadow shadowMixed ?_, same⟩
      rw [addr_of_sighting same]
      exact elsewhere row old
    · rw [List.mem_singleton.mp new, realMade]
      exact overtaken.there
  · intro row among
    obtain ⟨old, oldMixed, same, -⟩ := overtaken.alike row among
    rw [← same, restored_timed timed, sighted_append]
    exact (shadows.origin old oldMixed).imp_left .inl
  · intro first firstMember second secondMember left leftMember right
      rightMember firstNamed secondNamed firstClean secondClean
    rw [restored_timed timed] at firstClean secondClean
    have old : ∀ row ∈ real ++ [realFresh], ¬ Restored past row.addr →
        row ∈ real := by
      intro row among clean
      rcases List.mem_append.mp among with old | new
      · exact old
      · rw [List.mem_singleton.mp new, realNamed] at clean
        exact absurd restored clean
    have leftReal := old left leftMember (firstNamed ▸ firstClean)
    have rightReal := old right rightMember (secondNamed ▸ secondClean)
    obtain ⟨one, oneMixed, oneNamed, oneId⟩ :=
      overtaken.alike first firstMember
    obtain ⟨other, otherMixed, otherNamed, otherId⟩ :=
      overtaken.alike second secondMember
    rw [← oneId, ← otherId]
    exact shadows.order one oneMixed other otherMixed left leftReal right
      rightReal (oneNamed.trans firstNamed) (otherNamed.trans secondNamed)
      (oneNamed ▸ firstClean) (otherNamed ▸ secondClean)

/-- Where nothing that is kept was only restored, the genuine history is as full
as the mixed one. -/
theorem Shadows.full (shadows : Shadows history past mixed real)
    (tidy : Tidy history nextId mixed) (realTidy : Tidy history realId real)
    (clean : ∀ row ∈ mixed, Sighted past row.addr)
    (full : mixed.length = history) : real.length = history := by
  have within : mixed.map (·.addr) ⊆ real.map (·.addr) := by
    intro addr named
    obtain ⟨row, among, rfl⟩ := List.mem_map.mp named
    obtain ⟨own, ownReal, same⟩ :=
      shadows.genuine tidy realTidy among (clean row among)
    exact List.mem_map.mpr ⟨own, ownReal, addr_of_sighting same⟩
  have counted := (List.subperm_of_subset tidy.addrs within).length_le
  rw [List.length_map, List.length_map, full] at counted
  exact le_antisymm realTidy.few counted

theorem Unknown.addr (unknown : Unknown mixed call)
    (made : fresh.sighting = call.sighting) :
    ∀ row ∈ mixed, row.addr ≠ fresh.addr := by
  rw [show fresh.addr = call.addr from congrArg Sighting.addr made]
  exact unknown

/-- What has no row has no genuine one. -/
theorem Shadows.unknown (shadows : Shadows history past mixed real)
    (unknown : Unknown mixed call) : Unknown real call := by
  intro row member clash
  obtain ⟨other, otherMixed, alike⟩ := shadows.kept row member
  exact unknown other otherMixed ((addr_of_sighting alike).trans clash)

section Displacing

variable (shadows : Shadows history past mixed real)
variable (tidy : Tidy history fresh.id mixed)
variable (realTidy : Tidy history realFresh.id real)
variable (fair : Fair history past mixed call)
variable (made : fresh.sighting = call.sighting)
variable (realMade : realFresh.sighting = call.sighting)
variable (timed : call.observedAt.isSome = true)
variable (unknown : Unknown mixed call)
variable (pruned : Pruned history (mixed ++ [fresh]) mixedAfter)
variable (realPruned : Pruned history (real ++ [realFresh]) realAfter)

include shadows tidy realTidy fair made realMade timed unknown pruned
  realPruned

theorem kept_of_displacing {shadow : EndpointRow} (member : row ∈ real)
    (rowKept : row ∈ realAfter) (among : shadow ∈ mixed)
    (same : shadow.sighting = row.sighting) : shadow ∈ mixedAfter := by
  have freshUnknown := unknown.addr made
  have freshTime : fresh.observedAt = call.stamp :=
    congrArg Sighting.observedAt made
  have realTime : realFresh.observedAt = call.stamp :=
    congrArg Sighting.observedAt realMade
  have time : shadow.observedAt = row.observedAt :=
    congrArg Sighting.observedAt same
  have realUnknown := (shadows.unknown unknown).addr realMade
  by_contra left
  obtain ⟨full, oldest, freshKept, later⟩ :=
    tidy.oldest_of_left freshUnknown pruned among left
  have seen : Sighted past shadow.addr := by
    rw [addr_of_sighting same]
    exact shadows.sighted row member
  by_cases restored : ∃ row ∈ mixed, ¬ Sighted past row.addr
  · exact (fair.displaces timed unknown full restored shadow among oldest).1
      seen
  · push Not at restored
    have realFull := shadows.full tidy realTidy restored full
    obtain ⟨gone, goneAmong, goneLeft⟩ :=
      realTidy.exists_left realUnknown realPruned realFull
    have order := realPruned.older row rowKept gone goneAmong goneLeft
    rcases List.mem_append.mp goneAmong with goneReal | goneFresh
    · -- a draw between the two that go, which ids decide
      obtain ⟨other, otherMixed, alike⟩ := shadows.kept gone goneReal
      have otherTime : other.observedAt = gone.observedAt :=
        congrArg Sighting.observedAt alike
      have different : other ≠ shadow := by
        rintro rfl
        have equal := realTidy.eq_of_addr goneReal member
          ((addr_of_sighting alike).symm.trans (addr_of_sighting same))
        exact goneLeft (equal ▸ rowKept)
      have mixedOrder := oldest.2 other otherMixed
      have idsDiffer : other.id ≠ shadow.id := fun equal =>
        different (List.inj_on_of_nodup_map tidy.ids otherMixed among equal)
      unfold newestFirst at order mixedOrder
      have draw : other.observedAt = shadow.observedAt := by omega
      obtain ⟨shadowClean, otherClean⟩ := fair.draws timed unknown full
        restored shadow among oldest (by omega) other otherMixed different draw
      have ids := shadows.order shadow among other otherMixed row member gone
        goneReal (addr_of_sighting same) (addr_of_sighting alike) shadowClean
        otherClean (by omega)
      omega
    · obtain rfl := List.mem_singleton.mp goneFresh
      have := ((realTidy.fresh_left realUnknown realPruned goneLeft).2 row
        member).2
      omega

theorem fresh_kept_of_displacing (realKept : realFresh ∈ realAfter) :
    fresh ∈ mixedAfter := by
  have freshUnknown := unknown.addr made
  have freshTime : fresh.observedAt = call.stamp :=
    congrArg Sighting.observedAt made
  have realTime : realFresh.observedAt = call.stamp :=
    congrArg Sighting.observedAt realMade
  have realUnknown := (shadows.unknown unknown).addr realMade
  by_contra left
  obtain ⟨full, above⟩ := tidy.fresh_left freshUnknown pruned left
  by_cases restored : ∃ row ∈ mixed, ¬ Sighted past row.addr
  · obtain ⟨row, among, -⟩ := id restored
    obtain ⟨oldest, isOldest⟩ := exists_oldest among
    have earlier := (fair.displaces timed unknown full restored oldest
      isOldest.1 isOldest).2
    have := (above oldest isOldest.1).2
    omega
  · push Not at restored
    have realFull := shadows.full tidy realTidy restored full
    obtain ⟨gone, goneAmong, goneLeft⟩ :=
      realTidy.exists_left realUnknown realPruned realFull
    rcases List.mem_append.mp goneAmong with goneReal | goneFresh
    · have earlier := (realTidy.oldest_of_left realUnknown realPruned goneReal
        goneLeft).2.2.2
      obtain ⟨other, otherMixed, alike⟩ := shadows.kept gone goneReal
      have otherTime : other.observedAt = gone.observedAt :=
        congrArg Sighting.observedAt alike
      have := (above other otherMixed).2
      omega
    · exact goneLeft (List.mem_singleton.mp goneFresh ▸ realKept)

theorem Shadows.displacing :
    Shadows history (past ++ [call]) mixedAfter realAfter := by
  have named : fresh.addr = call.addr := congrArg Sighting.addr made
  have realNamed : realFresh.addr = call.addr := congrArg Sighting.addr realMade
  have split : ∀ row ∈ mixedAfter, row ∈ mixed ∨ row = fresh :=
    fun row member => (List.mem_append.mp (pruned.mem_of_mem member)).imp_right
      List.mem_singleton.mp
  have realSplit : ∀ row ∈ realAfter, row ∈ real ∨ row = realFresh :=
    fun row member => (List.mem_append.mp
      (realPruned.mem_of_mem member)).imp_right List.mem_singleton.mp
  refine ⟨?_, ?_, fun row member => shadows.sighted_added timed realNamed
    (realPruned.mem_of_mem member), ?_, ?_⟩
  · intro row member
    rcases realSplit row member with old | rfl
    · obtain ⟨shadow, among, same⟩ := shadows.kept row old
      exact ⟨shadow, kept_of_displacing shadows tidy realTidy fair made
        realMade timed unknown pruned realPruned old member among same, same⟩
    · exact ⟨fresh, fresh_kept_of_displacing shadows tidy realTidy fair made
        realMade timed unknown pruned realPruned member,
        made.trans realMade.symm⟩
  · intro room addr seen
    have few : (real ++ [realFresh]).length ≤ history := by
      have := realPruned.length
      omega
    have grown := realPruned.eq_of_few few
    rw [List.length_append] at few
    subst grown
    exact shadows.all_added (Nat.lt_of_succ_le few) realNamed seen
  · intro row member
    rw [restored_timed timed, sighted_append]
    rcases split row member with old | rfl
    · exact (shadows.origin row old).imp_left .inl
    · exact .inl (.inr ⟨named.symm, timed⟩)
  · intro first firstMember second secondMember left leftMember right
      rightMember firstNamed secondNamed firstClean secondClean before
    rw [restored_timed timed] at firstClean secondClean
    have old : ∀ row ∈ realAfter, row.addr ≠ call.addr → row ∈ real :=
      fun row member different => (realSplit row member).resolve_right
        fun same => different (same ▸ realNamed)
    have firstOld : first ∈ mixed := by
      refine (split first firstMember).resolve_right fun same => ?_
      subst same
      rcases split second secondMember with secondOld | rfl
      · exact absurd (tidy.earlier second secondOld) (by omega)
      · omega
    have leftReal := old left leftMember
      (firstNamed ▸ unknown first firstOld)
    rcases split second secondMember with secondOld | rfl
    · have rightReal := old right rightMember
        (secondNamed ▸ unknown second secondOld)
      exact shadows.order first firstOld second secondOld left leftReal right
        rightReal firstNamed secondNamed firstClean secondClean before
    · have rightIs : right = realFresh := by
        refine (realSplit right rightMember).resolve_left fun rightReal => ?_
        exact shadows.unknown unknown right rightReal
          (secondNamed.symm.trans named)
      rw [rightIs]
      exact realTidy.earlier left leftReal

end Displacing

end Timed

theorem Shadows.timed {fresh realFresh : EndpointRow}
    (shadows : Shadows history past mixed real)
    (tidy : Tidy history fresh.id mixed)
    (realTidy : Tidy history realFresh.id real)
    (fair : Fair history past mixed call)
    (made : fresh.sighting = call.sighting)
    (realMade : realFresh.sighting = call.sighting)
    (recorded : Recorded history fresh true mixed mixedAfter)
    (realRecorded : Recorded history realFresh true real realAfter)
    (timed : call.observedAt.isSome = true) :
    Shadows history (past ++ [call]) mixedAfter realAfter := by
  by_cases there : ∃ known ∈ mixed, known.addr = call.addr
  · obtain ⟨known, member, named⟩ := there
    by_cases seen : Sighted past call.addr
    · exact shadows.again tidy realTidy made realMade recorded realRecorded
        timed member named seen
    · exact shadows.overtaking tidy realTidy realMade
        (fair.overtaken tidy made recorded timed member named seen)
        realRecorded timed member named seen
  · have unknown : Unknown mixed call :=
      fun row member same => there ⟨row, member, same⟩
    have realUnknown := shadows.unknown unknown
    have added := recorded.pruned (unknown.addr made)
    have realAdded := realRecorded.pruned (realUnknown.addr realMade)
    exact shadows.displacing tidy realTidy fair made realMade timed unknown
      added realAdded

end Shadows

/-- The calls that carry a timestamp. -/
def timestamped (calls : List Observation) : List Observation :=
  calls.filter (·.observedAt.isSome)

section Run

variable {table : EndpointTable} {history peerId : Nat} {kind : EndpointKind}

/-- Every call of the run is a fair one. -/
def FairRun (table : EndpointTable) (history peerId : Nat)
    (kind : EndpointKind) (calls : List Observation) : Prop :=
  ∀ past call later, calls = past ++ call :: later →
    Fair history past
      ((table.observeAll history peerId kind past).ofPair peerId kind) call

theorem FairRun.init {calls : List Observation} {call : Observation}
    (fair : FairRun table history peerId kind (calls ++ [call])) :
    FairRun table history peerId kind calls ∧
      Fair history calls
        ((table.observeAll history peerId kind calls).ofPair peerId kind)
        call := by
  constructor
  · intro past other later whole
    exact fair past other (later ++ [call]) (by rw [whole]; simp)
  · exact fair calls call [] rfl

theorem FairRun.nil : FairRun table history peerId kind [] := by
  intro past call later whole
  cases past <;> cases whole

theorem FairRun.append {calls : List Observation} {call : Observation}
    (fair : FairRun table history peerId kind calls)
    (here : Fair history calls
      ((table.observeAll history peerId kind calls).ofPair peerId kind)
      call) : FairRun table history peerId kind (calls ++ [call]) := by
  intro past other later whole
  rcases Process.split_last whole with ⟨rfl, rfl⟩ | ⟨rest, -, old⟩
  · exact here
  · exact fair past other rest old

theorem observeAll_append (table : EndpointTable)
    (calls : List Observation) (call : Observation) :
    table.observeAll history peerId kind (calls ++ [call]) =
      (table.observeAll history peerId kind calls).recordPeerEndpoint history
        call.now peerId kind call.addr call.observedAt call.via := by
  rw [observeAll, List.foldl_append]
  rfl

/-- The mixed and the genuine history after a run of fair calls. -/
theorem shadows_of_fairRun {calls : List Observation}
    (unknown : table.ofPair peerId kind = [])
    (fair : FairRun table history peerId kind calls) :
    let mixed := table.observeAll history peerId kind calls
    let real := table.observeAll history peerId kind (timestamped calls)
    Shadows history calls (mixed.ofPair peerId kind)
        (real.ofPair peerId kind) ∧
      Tidy history mixed.nextId (mixed.ofPair peerId kind) ∧
        Tidy history real.nextId (real.ofPair peerId kind) := by
  induction calls using List.reverseRecOn with
  | nil =>
    simp only [timestamped, List.filter_nil, observeAll, List.foldl_nil,
      unknown]
    have empty : Tidy history table.nextId [] :=
      ⟨.nil, .nil, nofun, Nat.zero_le _⟩
    refine ⟨⟨nofun, ?_, nofun, nofun, nofun⟩, empty, empty⟩
    rintro - addr ⟨call, member, -⟩
    cases member
  | append_singleton calls call ih =>
    obtain ⟨before, here⟩ := fair.init
    obtain ⟨shadows, tidy, realTidy⟩ := ih before
    obtain ⟨recorded, tidied, -⟩ := recordPeerEndpoint_recorded
      call.now call.addr call.observedAt call.via tidy
    simp only [observeAll_append]
    by_cases timed : call.observedAt.isSome = true
    · have later : timestamped (calls ++ [call]) =
          timestamped calls ++ [call] := by
        simp [timestamped, timed]
      obtain ⟨realRecorded, realTidied, -⟩ := recordPeerEndpoint_recorded
        call.now call.addr call.observedAt call.via realTidy
      rw [timed] at recorded realRecorded
      rw [later, observeAll_append]
      exact ⟨shadows.timed tidy realTidy here rfl rfl recorded realRecorded
        timed, tidied, realTidied⟩
    · have bare : call.observedAt.isSome = false := by simpa using timed
      have later : timestamped (calls ++ [call]) = timestamped calls := by
        simp [timestamped, bare]
      rw [bare] at recorded
      rw [later]
      exact ⟨shadows.untimed tidy here bare rfl recorded, tidied, realTidy⟩

end Run

/-- Where every call is fair, each address the history would hold without the
sightings that have no timestamp is held the same with them. -/
theorem restored_never_outranks (table : EndpointTable)
    (history peerId : Nat) (kind : EndpointKind) (calls : List Observation)
    (unknown : table.ofPair peerId kind = [])
    (fair : FairRun table history peerId kind calls) :
    ∀ row ∈ (table.observeAll history peerId kind
        (timestamped calls)).historyOf peerId kind,
      ∃ other ∈ (table.observeAll history peerId kind calls).historyOf peerId
          kind, other.sighting = row.sighting := by
  obtain ⟨shadows, -, -⟩ := shadows_of_fairRun unknown fair
  intro row member
  obtain ⟨other, among, same⟩ :=
    shadows.kept row ((List.mem_insertionSort _).mp member)
  exact ⟨other, (List.mem_insertionSort _).mpr among, same⟩

/-- An address is restored and then seen. -/
def restoredThenSeen : List Observation :=
  [⟨1000, "203.0.113.5:1", none, .restored⟩,
    ⟨1001, "203.0.113.5:1", some 1001, .direct⟩,
    ⟨1002, "198.51.100.7:1", some 990, .gossip⟩]

theorem restored_then_seen :
    ∃ other ∈ (EndpointTable.empty.observeAll 5 1 .api
        restoredThenSeen).historyOf 1 .api,
      other.sighting = ⟨"203.0.113.5:1", 1001, .direct⟩ :=
  restored_never_outranks .empty 5 1 .api restoredThenSeen rfl
    (((FairRun.nil.append ⟨by decide, by decide, by decide, by decide⟩).append
      ⟨by decide, by decide, by decide, by decide⟩).append
        ⟨by decide, by decide, by decide, by decide⟩)
    ⟨1, 1, .api, "203.0.113.5:1", 1001, .direct⟩ (by decide)

/-- A record a friend signed before the restore arrives after it. -/
def restoredFirst : List Observation :=
  [⟨1000, "203.0.113.5:1", none, .restored⟩,
    ⟨1001, "203.0.113.5:1", some 999, .gossip⟩]

theorem restored_outranks_earlier_sighting :
    ¬ ∀ row ∈ (EndpointTable.empty.observeAll 5 1 .api
        (timestamped restoredFirst)).historyOf 1 .api,
      ∃ other ∈ (EndpointTable.empty.observeAll 5 1 .api
          restoredFirst).historyOf 1 .api,
        other.sighting = row.sighting := by
  decide

end EndpointTable

end Sharerr
