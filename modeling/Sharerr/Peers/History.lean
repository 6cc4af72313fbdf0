import Sharerr.Peers.Endpoints
import Sharerr.Table.Limited

/-!
# The history of one peer and kind

What a recorded sighting does to the rows of its `(peer, kind)` pair: it adds
one and forgets the oldest, or renews one, or changes nothing.  The rows of the
other pairs stay.
-/

namespace Sharerr

namespace EndpointRow

def IsOf (peerId : Nat) (kind : EndpointKind) (row : EndpointRow) : Prop :=
  row.peerId = peerId ∧ row.kind = kind

instance (peerId : Nat) (kind : EndpointKind) (row : EndpointRow) :
    Decidable (row.IsOf peerId kind) :=
  inferInstanceAs (Decidable (_ ∧ _))

end EndpointRow

/-- What is sighted: an address, when, and how. -/
structure Sighting where
  addr : String
  observedAt : Int
  via : ObservedVia
deriving DecidableEq, Repr

def EndpointRow.sighting (row : EndpointRow) : Sighting :=
  ⟨row.addr, row.observedAt, row.via⟩

namespace EndpointTable

variable {table : EndpointTable} {history peerId : Nat} {kind : EndpointKind}
variable {now at_ : Int} {addr : String} {observedAt : Option Int}
variable {via : ObservedVia} {row : EndpointRow}

instance : Std.Total newestFirst where
  total left right := by
    unfold newestFirst
    omega

instance : IsTrans EndpointRow newestFirst where
  trans first second third one other := by
    unfold newestFirst at one other ⊢
    omega

/-- The rows of one peer and kind. -/
def ofPair (table : EndpointTable) (peerId : Nat) (kind : EndpointKind) :
    List EndpointRow :=
  table.rows.filter fun row => row.IsOf peerId kind

/-- The rows of every other peer and kind. -/
def ofOthers (table : EndpointTable) (peerId : Nat) (kind : EndpointKind) :
    List EndpointRow :=
  table.rows.filter fun row => ¬ row.IsOf peerId kind

/-- The row that pruning drops first. -/
def Oldest (rows : List EndpointRow) (row : EndpointRow) : Prop :=
  row ∈ rows ∧ ∀ other ∈ rows, newestFirst other row

instance (rows : List EndpointRow) (row : EndpointRow) :
    Decidable (Oldest rows row) :=
  inferInstanceAs (Decidable (_ ∧ ∀ other ∈ rows, _))

/-- What `peer_endpoints_for` reads for one peer and kind. -/
def historyOf (table : EndpointTable) (peerId : Nat) (kind : EndpointKind) :
    List EndpointRow :=
  (table.ofPair peerId kind).insertionSort newestFirst

/-- The time a sighting is recorded under. -/
def stamp (now : Int) : Option Int → Int
  | some observed => min observed (Rust.saturatingAdd now maxFutureSkewSecs)
  | none => now

/-- The row with its address renewed. -/
def renewed (addr : String) (at_ : Int) (via : ObservedVia)
    (row : EndpointRow) : EndpointRow :=
  if row.addr = addr then { row with observedAt := at_, via } else row

/-- Rows told apart by their address and by their id, and no more of them than
are kept. -/
structure Tidy (history nextId : Nat) (rows : List EndpointRow) : Prop where
  ids : (rows.map (·.id)).Nodup
  addrs : (rows.map (·.addr)).Nodup
  earlier : ∀ row ∈ rows, row.id < nextId
  few : rows.length ≤ history

/-- The newest `history` of these rows. -/
structure Pruned (history : Nat) (before after : List EndpointRow) : Prop where
  sublist : after.Sublist before
  length : after.length = min history before.length
  older : ∀ row ∈ after, ∀ left ∈ before, left ∉ after → newestFirst row left

variable {rows after before : List EndpointRow}

theorem exists_oldest (member : row ∈ rows) :
    ∃ oldest, Oldest rows oldest := by
  induction rows generalizing row with
  | nil => cases member
  | cons first rows ih =>
    cases rows with
    | nil => exact ⟨first, by simp [Oldest, newestFirst]⟩
    | cons second rest =>
      obtain ⟨oldest, among, order⟩ := ih List.mem_cons_self
      rcases Std.Total.total (r := newestFirst) first oldest with
        before | after
      · refine ⟨oldest, List.mem_cons_of_mem _ among, ?_⟩
        exact List.forall_mem_cons.mpr ⟨before, order⟩
      · refine ⟨first, List.mem_cons_self, List.forall_mem_cons.mpr
          ⟨.inr ⟨rfl, le_refl _⟩, fun other member => ?_⟩⟩
        exact IsTrans.trans _ _ _ (order other member) after

theorem ofPair_prune (table : EndpointTable) (history peerId : Nat)
    (kind : EndpointKind)
    (unique : ((table.ofPair peerId kind).map (·.id)).Nodup) :
    Pruned history (table.ofPair peerId kind)
      ((table.prune history peerId kind).ofPair peerId kind) := by
  let pair := table.ofPair peerId kind
  let kept := Limited.first newestFirst history pair
  have rows : (table.prune history peerId kind).ofPair peerId kind =
      pair.filter fun row => (kept.map (·.id)).contains row.id := by
    simp only [ofPair, prune, List.filter_filter, pair]
    apply List.filter_congr
    intro row _
    by_cases own : row.IsOf peerId kind
    · have named : row.peerId = peerId ∧ row.kind = kind := own
      simp only [own, named, decide_true, Bool.true_and, Bool.and_true]
      rfl
    · have named : ¬ (row.peerId = peerId ∧ row.kind = kind) := own
      simp [own, named]
  have among : ∀ row ∈ pair,
      ((kept.map (·.id)).contains row.id = true ↔ row ∈ kept) := by
    intro row member
    rw [List.contains_iff_mem, List.mem_map]
    constructor
    · rintro ⟨other, otherKept, same⟩
      have equal := List.inj_on_of_nodup_map unique
        (Limited.mem_of_mem_first otherKept) member same
      rwa [← equal]
    · exact fun rowKept => ⟨row, rowKept, rfl⟩
  have member : ∀ row, row ∈ (table.prune history peerId kind).ofPair peerId
      kind ↔ row ∈ kept := by
    intro row
    rw [rows, List.mem_filter]
    constructor
    · exact fun ⟨inPair, contained⟩ => (among row inPair).mp contained
    · intro rowKept
      have inPair := Limited.mem_of_mem_first rowKept
      exact ⟨inPair, (among row inPair).mpr rowKept⟩
  have nodup : pair.Nodup := List.Nodup.of_map _ unique
  have sublist : ((table.prune history peerId kind).ofPair peerId
      kind).Sublist pair := by
    rw [rows]
    exact List.filter_sublist
  refine ⟨sublist, ?_, ?_⟩
  · have same := (List.perm_ext_iff_of_nodup (nodup.sublist sublist)
      (Limited.nodup_first nodup)).mpr member
    rw [same.length_eq, Limited.length_first]
  · intro row rowKept left among left'
    rw [member] at rowKept left'
    exact Limited.below_of_mem_first rowKept among left'

theorem ofOthers_prune :
    (table.prune history peerId kind).ofOthers peerId kind =
      table.ofOthers peerId kind := by
  simp only [ofOthers, prune, List.filter_filter]
  apply List.filter_congr
  intro row _
  by_cases own : row.IsOf peerId kind
  · simp [own]
  · have named : ¬ (row.peerId = peerId ∧ row.kind = kind) := own
    simp [own, named]

/-- What recording `fresh` does to the rows of its pair. -/
inductive Recorded (history : Nat) (fresh : EndpointRow) (timed : Bool)
    (before after : List EndpointRow) : Prop where
  | added (unknown : ∀ row ∈ before, row.addr ≠ fresh.addr)
      (pruned : Pruned history (before ++ [fresh]) after)
  | renewed (known : EndpointRow) (member : known ∈ before)
      (same : known.addr = fresh.addr) (real : timed = true)
      (newer : known.observedAt < fresh.observedAt)
      (written : after =
        before.map (renewed fresh.addr fresh.observedAt fresh.via))
  | ignored (known : EndpointRow) (member : known ∈ before)
      (same : known.addr = fresh.addr)
      (older : timed = true → fresh.observedAt ≤ known.observedAt)
      (kept : after = before)

/-- The row a sighting of an unknown address adds. -/
def freshRow (table : EndpointTable) (now : Int) (peerId : Nat)
    (kind : EndpointKind) (addr : String) (observedAt : Option Int)
    (via : ObservedVia) : EndpointRow :=
  ⟨table.nextId, peerId, kind, addr, stamp now observedAt, via⟩

@[simp] theorem renewed_id : (renewed addr at_ via row).id = row.id := by
  unfold renewed
  split <;> rfl

@[simp] theorem renewed_addr : (renewed addr at_ via row).addr = row.addr := by
  unfold renewed
  split <;> rfl

/-- What a row is found by. -/
def isSame (peerId : Nat) (kind : EndpointKind) (addr : String)
    (row : EndpointRow) : Bool :=
  decide (row.peerId = peerId ∧ row.kind = kind ∧ row.addr = addr)

theorem isSame_iff : isSame peerId kind addr row = true ↔
    row.IsOf peerId kind ∧ row.addr = addr := by
  simp [isSame, EndpointRow.IsOf, and_assoc]

theorem mem_ofPair : row ∈ table.ofPair peerId kind ↔
    row ∈ table.rows ∧ row.IsOf peerId kind := by
  simp [ofPair]

theorem map_renewed :
    (rows.map fun row => if isSame peerId kind addr row then
      { row with observedAt := at_, via } else row).filter
        (fun row => row.IsOf peerId kind) =
      (rows.filter fun row => row.IsOf peerId kind).map
        (renewed addr at_ via) := by
  rw [List.filter_map]
  have same : ∀ row ∈ rows.filter fun row => row.IsOf peerId kind,
      (if isSame peerId kind addr row then
        { row with observedAt := at_, via } else row) =
          renewed addr at_ via row := by
    intro row member
    have own := of_decide_eq_true (List.mem_filter.mp member).2
    unfold renewed
    by_cases named : row.addr = addr
    · rw [if_pos (isSame_iff.mpr ⟨own, named⟩), if_pos named]
    · rw [if_neg fun found => named (isSame_iff.mp found).2, if_neg named]
  rw [← List.map_congr_left same]
  congr 1
  apply List.filter_congr
  intro row _
  simp only [Function.comp]
  split <;> rfl

theorem Pruned.mem_of_mem (pruned : Pruned history before after)
    (member : row ∈ after) :
    row ∈ before :=
  pruned.sublist.subset member

theorem Pruned.eq_of_few (pruned : Pruned history before after)
    (few : before.length ≤ history) :
    after = before :=
  pruned.sublist.eq_of_length (by rw [pruned.length, min_eq_right few])

/-- Where a row is left out, as many as allowed are kept. -/
theorem Pruned.full (pruned : Pruned history before after)
    (member : row ∈ before) (left : row ∉ after) : after.length = history := by
  rw [pruned.length]
  by_contra less
  have few : before.length ≤ history := by omega
  exact left ((pruned.eq_of_few few).symm ▸ member)

theorem Pruned.exists_left (pruned : Pruned history before after)
    (nodup : before.Nodup) (many : history < before.length) :
    ∃ row ∈ before, row ∉ after := by
  by_contra none_
  push Not at none_
  have all := (List.subperm_of_subset nodup none_).length_le
  rw [pruned.length] at all
  omega

theorem Pruned.only_left {other : EndpointRow}
    (pruned : Pruned history before after) (nodup : before.Nodup)
    (few : before.length ≤ history + 1) (member : row ∈ before)
    (left : row ∉ after) (among : other ∈ before) (otherLeft : other ∉ after) :
    row = other := by
  by_contra different
  have distinct : (row :: other :: after).Nodup := by
    refine List.nodup_cons.mpr ⟨?_, List.nodup_cons.mpr
      ⟨otherLeft, nodup.sublist pruned.sublist⟩⟩
    exact fun clash => (List.mem_cons.mp clash).elim different left
  have within : (row :: other :: after) ⊆ before :=
    List.cons_subset.mpr ⟨member, List.cons_subset.mpr
      ⟨among, pruned.sublist.subset⟩⟩
  have counted := (List.subperm_of_subset distinct within).length_le
  simp only [List.length_cons, pruned.full member left] at counted
  omega

theorem Tidy.eq_of_addr {nextId : Nat} {other : EndpointRow}
    (tidy : Tidy history nextId rows) (member : row ∈ rows)
    (among : other ∈ rows) (same : row.addr = other.addr) : row = other :=
  List.inj_on_of_nodup_map tidy.addrs member among same

section Recorded

variable {fresh : EndpointRow} {timed : Bool}
variable {before after : List EndpointRow}

/-- The rows before pruning stay told apart. -/
theorem Tidy.append (tidy : Tidy history fresh.id before)
    (unknown : ∀ row ∈ before, row.addr ≠ fresh.addr) :
    ((before ++ [fresh]).map (·.id)).Nodup ∧
      ((before ++ [fresh]).map (·.addr)).Nodup := by
  simp only [List.map_append, List.map_cons, List.map_nil]
  constructor
  · refine tidy.ids.append (List.nodup_singleton _) ?_
    rw [List.disjoint_singleton, List.mem_map]
    rintro ⟨row, member, same⟩
    exact absurd (tidy.earlier row member) (by omega)
  · refine tidy.addrs.append (List.nodup_singleton _) ?_
    rw [List.disjoint_singleton, List.mem_map]
    exact fun ⟨row, member, same⟩ => unknown row member same

theorem Tidy.pruned (tidy : Tidy history fresh.id before)
    (unknown : ∀ row ∈ before, row.addr ≠ fresh.addr)
    (pruned : Pruned history (before ++ [fresh]) after) :
    Tidy history (fresh.id + 1) after := by
  obtain ⟨ids, addrs⟩ := tidy.append unknown
  refine ⟨ids.sublist (pruned.sublist.map _),
    addrs.sublist (pruned.sublist.map _), ?_, ?_⟩
  · intro row member
    rcases List.mem_append.mp (pruned.mem_of_mem member) with old | new
    · have := tidy.earlier row old
      omega
    · rw [List.mem_singleton.mp new]
      omega
  · rw [pruned.length]
    exact Nat.min_le_left _ _

theorem Recorded.pruned (recorded : Recorded history fresh timed before after)
    (unknown : ∀ row ∈ before, row.addr ≠ fresh.addr) :
    Pruned history (before ++ [fresh]) after := by
  cases recorded with
  | added _ pruned => exact pruned
  | renewed known member same => exact absurd same (unknown known member)
  | ignored known member same => exact absurd same (unknown known member)

theorem Tidy.length_append (tidy : Tidy history fresh.id before) :
    (before ++ [fresh]).length ≤ history + 1 := by
  rw [List.length_append]
  exact Nat.add_le_add_right tidy.few 1

theorem Tidy.full_of_left (tidy : Tidy history fresh.id before)
    (pruned : Pruned history (before ++ [fresh]) after)
    (among : row ∈ before ++ [fresh]) (left : row ∉ after) :
    before.length = history := by
  by_contra less
  have few : (before ++ [fresh]).length ≤ history := by
    have := tidy.few
    rw [List.length_append, List.length_singleton]
    omega
  exact left ((pruned.eq_of_few few).symm ▸ among)

theorem Tidy.exists_left (tidy : Tidy history fresh.id before)
    (unknown : ∀ row ∈ before, row.addr ≠ fresh.addr)
    (pruned : Pruned history (before ++ [fresh]) after)
    (full : before.length = history) :
    ∃ row ∈ before ++ [fresh], row ∉ after := by
  have nodup : (before ++ [fresh]).Nodup := .of_map _ (tidy.append unknown).1
  refine pruned.exists_left nodup ?_
  rw [List.length_append, full]
  exact Nat.lt_succ_self _

theorem Tidy.oldest_of_left (tidy : Tidy history fresh.id before)
    (unknown : ∀ row ∈ before, row.addr ≠ fresh.addr)
    (pruned : Pruned history (before ++ [fresh]) after)
    (member : row ∈ before) (left : row ∉ after) :
    before.length = history ∧ Oldest before row ∧ fresh ∈ after ∧
      row.observedAt ≤ fresh.observedAt := by
  have nodup : (before ++ [fresh]).Nodup := .of_map _ (tidy.append unknown).1
  have among := List.mem_append_left [fresh] member
  have others : ∀ other ∈ before ++ [fresh], other ≠ row → other ∈ after := by
    intro other otherAmong different
    by_contra otherLeft
    exact different (pruned.only_left nodup tidy.length_append otherAmong
      otherLeft among left)
  have freshKept : fresh ∈ after := by
    refine others fresh (List.mem_append_right _ List.mem_cons_self) ?_
    rintro rfl
    exact unknown fresh member rfl
  refine ⟨tidy.full_of_left pruned among left,
    ⟨member, fun other otherMember => ?_⟩, freshKept, ?_⟩
  · by_cases same : other = row
    · rw [same]
      exact .inr ⟨rfl, le_refl _⟩
    · exact pruned.older other (others other
        (List.mem_append_left _ otherMember) same) row among left
  · have order := pruned.older fresh freshKept row among left
    unfold newestFirst at order
    omega

/-- Where the new row goes itself, it is older than all of a full history. -/
theorem Tidy.fresh_left (tidy : Tidy history fresh.id before)
    (unknown : ∀ row ∈ before, row.addr ≠ fresh.addr)
    (pruned : Pruned history (before ++ [fresh]) after)
    (left : fresh ∉ after) :
    before.length = history ∧
      ∀ row ∈ before, row ∈ after ∧ fresh.observedAt < row.observedAt := by
  have nodup : (before ++ [fresh]).Nodup := .of_map _ (tidy.append unknown).1
  have among : fresh ∈ before ++ [fresh] :=
    List.mem_append_right _ List.mem_cons_self
  refine ⟨tidy.full_of_left pruned among left, fun row member => ?_⟩
  have kept : row ∈ after := by
    by_contra rowLeft
    have same := pruned.only_left nodup tidy.length_append
      (List.mem_append_left _ member) rowLeft among left
    exact unknown row member (congrArg EndpointRow.addr same)
  have order := pruned.older row kept fresh among left
  have := tidy.earlier row member
  unfold newestFirst at order
  exact ⟨kept, by omega⟩

theorem Tidy.renewed {nextId : Nat} (tidy : Tidy history nextId before)
    (addr : String) (at_ : Int) (via : ObservedVia) :
    Tidy history nextId (before.map (renewed addr at_ via)) := by
  refine ⟨?_, ?_, ?_, ?_⟩
  · simpa [Function.comp_def] using tidy.ids
  · simpa [Function.comp_def] using tidy.addrs
  · intro row among
    obtain ⟨old, member, rfl⟩ := List.mem_map.mp among
    rw [renewed_id]
    exact tidy.earlier old member
  · simpa using tidy.few

end Recorded

theorem record_unknown
    (found : table.rows.find? (isSame peerId kind addr) = none) :
    table.recordPeerEndpoint history now peerId kind addr observedAt via =
      EndpointTable.prune
        ⟨table.rows ++ [table.freshRow now peerId kind addr observedAt via],
          table.nextId + 1⟩ history peerId kind := by
  simp only [recordPeerEndpoint]
  rw [show table.rows.find? (fun row => decide (row.peerId = peerId ∧
    row.kind = kind ∧ row.addr = addr)) = none from found]
  cases observedAt <;> rfl

theorem record_known {known : EndpointRow}
    (found : table.rows.find? (isSame peerId kind addr) = some known) :
    table.recordPeerEndpoint history now peerId kind addr observedAt via =
      if observedAt.isSome && known.observedAt < stamp now observedAt then
        EndpointTable.prune
          { table with rows := table.rows.map fun row =>
              if isSame peerId kind addr row then
                { row with observedAt := stamp now observedAt, via }
              else row }
          history peerId kind
      else table := by
  simp only [recordPeerEndpoint]
  rw [show table.rows.find? (fun row => decide (row.peerId = peerId ∧
    row.kind = kind ∧ row.addr = addr)) = some known from found]
  cases observedAt <;> rfl

theorem ofOthers_map_renewed :
    (rows.map fun row => if isSame peerId kind addr row then
      { row with observedAt := at_, via } else row).filter
        (fun row => ¬ row.IsOf peerId kind) =
      rows.filter fun row => ¬ row.IsOf peerId kind := by
  induction rows with
  | nil => rfl
  | cons row rows ih =>
    rw [List.map_cons, List.filter_cons, List.filter_cons, ih]
    by_cases same : isSame peerId kind addr row = true
    · have own := (isSame_iff.mp same).1
      have written : EndpointRow.IsOf peerId kind
        { row with observedAt := at_, via } := own
      rw [if_pos same, if_neg (by simpa using written),
        if_neg (by simpa using own)]
    · rw [if_neg same]

section Recording

variable (now : Int) (addr : String) (observedAt : Option Int)
  (via : ObservedVia)

/-- A sighting of an unknown address, as the rows of its pair and of the others
see it. -/
theorem recorded_unknown
    (tidy : Tidy history table.nextId (table.ofPair peerId kind))
    (found : table.rows.find? (isSame peerId kind addr) = none) :
    let later := table.recordPeerEndpoint history now peerId kind addr
      observedAt via
    let fresh := table.freshRow now peerId kind addr observedAt via
    Recorded history fresh observedAt.isSome (table.ofPair peerId kind)
        (later.ofPair peerId kind) ∧
      Tidy history later.nextId (later.ofPair peerId kind) ∧
        later.ofOthers peerId kind = table.ofOthers peerId kind := by
  intro later fresh
  let grown : EndpointTable := ⟨table.rows ++ [fresh], table.nextId + 1⟩
  have step : later = grown.prune history peerId kind := record_unknown found
  have own : fresh.IsOf peerId kind := ⟨rfl, rfl⟩
  have unknown : ∀ row ∈ table.ofPair peerId kind, row.addr ≠ fresh.addr := by
    intro row member named
    obtain ⟨stored, ofIt⟩ := mem_ofPair.mp member
    exact List.find?_eq_none.mp found row stored
      (isSame_iff.mpr ⟨ofIt, named⟩)
  have pair : grown.ofPair peerId kind =
      table.ofPair peerId kind ++ [fresh] := by
    simp [grown, ofPair, own]
  have unique : ((grown.ofPair peerId kind).map (·.id)).Nodup := by
    rw [pair]
    exact (tidy.append unknown).1
  have pruned := ofPair_prune grown history peerId kind unique
  rw [pair, ← step] at pruned
  have nextId : later.nextId = fresh.id + 1 := by rw [step]; rfl
  refine ⟨.added unknown pruned, ?_, ?_⟩
  · rw [nextId]
    exact tidy.pruned unknown pruned
  · rw [step, ofOthers_prune]
    simp [grown, ofOthers, own]

theorem prune_renewed
    (tidy : Tidy history table.nextId (table.ofPair peerId kind)) :
    let moved : EndpointTable :=
      { table with rows := table.rows.map fun row =>
          if isSame peerId kind addr row then
            { row with observedAt := at_, via }
          else row }
    (moved.prune history peerId kind).ofPair peerId kind =
        (table.ofPair peerId kind).map (renewed addr at_ via) ∧
      (moved.prune history peerId kind).ofOthers peerId kind =
        table.ofOthers peerId kind := by
  intro moved
  have pair : moved.ofPair peerId kind =
      (table.ofPair peerId kind).map (renewed addr at_ via) := map_renewed
  have tidied := tidy.renewed addr at_ via
  have unique : ((moved.ofPair peerId kind).map (·.id)).Nodup := by
    rw [pair]
    exact tidied.ids
  have few : (moved.ofPair peerId kind).length ≤ history := by
    rw [pair]
    exact tidied.few
  have written :=
    (ofPair_prune moved history peerId kind unique).eq_of_few few
  exact ⟨written.trans pair, ofOthers_prune.trans ofOthers_map_renewed⟩

/-- A recorded sighting, as the rows of its pair and of the others see it. -/
theorem recordPeerEndpoint_recorded
    (tidy : Tidy history table.nextId (table.ofPair peerId kind)) :
    let later := table.recordPeerEndpoint history now peerId kind addr
      observedAt via
    Recorded history
        (table.freshRow now peerId kind addr observedAt via)
        observedAt.isSome (table.ofPair peerId kind)
        (later.ofPair peerId kind) ∧
      Tidy history later.nextId (later.ofPair peerId kind) ∧
        later.ofOthers peerId kind = table.ofOthers peerId kind := by
  intro later
  cases found : table.rows.find? (isSame peerId kind addr) with
  | none => exact recorded_unknown now addr observedAt via tidy found
  | some known =>
    have step : later = _ := record_known found
    obtain ⟨ofIt, same⟩ := isSame_iff.mp (List.find?_some found)
    have member : known ∈ table.ofPair peerId kind :=
      mem_ofPair.mpr ⟨List.mem_of_find?_eq_some found, ofIt⟩
    split at step
    · rename_i newer
      obtain ⟨real, newer⟩ := Bool.and_eq_true_iff.mp newer
      obtain ⟨written, others⟩ := prune_renewed addr via tidy
      rw [step]
      refine ⟨.renewed known member same real (of_decide_eq_true newer)
        written, ?_, others⟩
      rw [written]
      exact tidy.renewed addr (stamp now observedAt) via
    · rename_i older
      refine ⟨.ignored known member same (fun real => ?_) (by rw [step]),
        by rwa [step], by rw [step]⟩
      by_contra newer
      have later_ : known.observedAt < stamp now observedAt := by
        simpa [freshRow] using newer
      exact older (by simp [real, later_])

end Recording

end EndpointTable

end Sharerr
