import Sharerr.Process.History
import Sharerr.Sync.Alone
import Sharerr.Sync.Passes

/-!
# What a pass withdraws

A pass asks for the announce set once, before anything else it works with.
Whatever it changes it changes because of what it was answered since: an item
is withdrawn where its source listed everything and did not list it, or where
its date had passed.
-/

namespace Sharerr

namespace Sync

open Process

/-- What a syncer asked since it last asked for the announce set. -/
def thisPass (seen : History Answer) : History Answer :=
  seen.foldl
    (fun pass entry => if entry.1 = .announceSet then [] else pass ++ [entry])
    []

variable {request : Call}

theorem thisPass_append (seen : History Answer) (answer : Answer request)
    (other : request ≠ .announceSet) :
    thisPass (seen ++ [⟨request, answer⟩]) =
      thisPass seen ++ [⟨request, answer⟩] := by
  simp [thisPass, other]

/-- Some source has answered. -/
def Answered (pass : History Answer) : Prop :=
  ∃ kind scan, ⟨.discover kind, .ok scan⟩ ∈ pass

/-- The item's source listed everything, and not the item. -/
def Unlisted (pass : History Answer) (key : ItemKey) : Prop :=
  ∃ scan : SourceScan, ⟨.discover key.1, .ok scan⟩ ∈ pass ∧
    scan.complete = true ∧ ∀ item ∈ scan.items, item.key ≠ key

/-- The item's share-until date has passed. -/
def Overdue (pass : History Answer) (key : ItemKey) : Prop :=
  ∃ ends now until_, ⟨.shareEnds, .ok ends⟩ ∈ pass ∧
    ⟨.nowEpoch, now⟩ ∈ pass ∧ (key, until_) ∈ ends ∧ until_ ≤ now

/-- Why a pass may withdraw an item. -/
def Withdrawn (pass : History Answer) (key : ItemKey) : Prop :=
  Unlisted pass key ∨ Overdue pass key

/-- A torrent of ours, under which the pass read an item it may withdraw. -/
def OfWithdrawn (pass : History Answer) (hash : String) : Prop :=
  ∃ rows row, ⟨.allItems, .ok rows⟩ ∈ pass ∧ row ∈ rows ∧
    row.state ≠ .unshared ∧ row.createdBySharerr = true ∧
      (∃ recorded, row.infoHash = some recorded ∧ SameHash recorded hash) ∧
        Withdrawn pass row.key

/-- The calls that change items, their origins and audiences, or torrents. -/
def Call.Changes : Call → Prop
  | .upsert .. | .update .. | .setItemOrigin .. | .replaceAudience ..
  | .remove _ | .seeder .. | .edit _ => True
  | _ => False

/-- What a pass may ask, as long as it withdraws on a complete answer only. -/
structure Justified (pass : History Answer) (request : Call) : Prop where
  answered : request.Changes → Answered pass
  recorded : ∀ item now, request = .upsert item now →
    item.state ≠ .unshared
  unshared : ∀ key lastError,
    request = .update key (.setState .unshared lastError) →
      Withdrawn pass key
  removed : ∀ hash, request = .remove hash → OfWithdrawn pass hash
  unedited : ∀ torrents, request ≠ .edit torrents

/-- The answers a pass can get: a hash map visits each of its values once. -/
def Regular : (request : Call) → Answer request → Prop
  | .iterate items, order => order.Perm items
  | _, _ => True

theorem regular_of_performed (thread : Nat) {world after : World}
    {answer : Answer request}
    (performed : perform thread world request answer = some after) :
    Regular request answer := by
  cases request with
  | iterate items =>
    simp only [perform] at performed
    split at performed
    · rename_i same
      exact List.isPerm_iff.mp same
    · cases performed
  | _ => trivial

/-- The calls that need no justification but that some source answered. -/
def Call.IsPlainChange : Call → Prop
  | .announceSet | .remove _ | .edit _ => False
  | .update _ (.setState state _) => state ≠ .unshared
  | .upsert item _ => item.state ≠ .unshared
  | _ => True

/-- The calls that need none. -/
def Call.IsIdle (request : Call) : Prop :=
  ¬ request.Changes ∧ request ≠ .announceSet

theorem Call.IsIdle.justified (idle : request.IsIdle) (pass : History Answer) :
    Justified pass request := by
  refine ⟨fun changes => absurd changes idle.1, ?_, ?_, ?_, ?_⟩
  · rintro item now rfl
    exact absurd trivial idle.1
  · rintro key lastError rfl
    exact absurd trivial idle.1
  · rintro hash rfl
    exact absurd trivial idle.1
  · rintro torrents rfl
    exact absurd trivial idle.1

theorem Call.IsPlainChange.justified (plain : request.IsPlainChange)
    {pass : History Answer} (answered : Answered pass) :
    Justified pass request := by
  refine ⟨fun _ => answered, ?_, ?_, ?_, ?_⟩
  · rintro item now rfl
    exact plain
  · rintro key lastError rfl
    exact absurd rfl plain
  · rintro hash rfl
    exact plain.elim
  · rintro torrents rfl
    exact plain.elim

theorem Call.IsPlainChange.not_begin (plain : request.IsPlainChange) :
    request ≠ .announceSet := by
  rintro rfl
  exact plain

/-- The syncer's program is justified all along. -/
abbrev Pursues {α : Type} (post : α → History Answer → Prop)
    (program : Program α) (seen : History Answer) : Prop :=
  program.Along Regular (fun seen request => Justified (thisPass seen) request)
    (fun value later => post value (thisPass later)) seen

/-- A statement about the history of a pass that stays true. -/
def Growing (property : History Answer → Prop) : Prop :=
  ∀ pass entry, property pass → property (pass ++ [entry])

theorem Growing.and {left right : History Answer → Prop}
    (first : Growing left) (second : Growing right) :
    Growing fun pass => left pass ∧ right pass :=
  fun pass entry holds =>
    ⟨first pass entry holds.1, second pass entry holds.2⟩

theorem growing_mem (entry : (request : Call) × Answer request) :
    Growing fun pass => entry ∈ pass :=
  fun _ _ member => List.mem_append_left _ member

theorem growing_true : Growing fun _ => True :=
  fun _ _ _ => trivial

section Programs

variable {α β ε : Type} {property : History Answer → Prop}
variable {seen : History Answer}

theorem pursues_call {request : Call} {next : Answer request → Program α}
    {post : α → History Answer → Prop} (growing : Growing property)
    (other : request ≠ .announceSet) (holds : property (thisPass seen))
    (justified : Justified (thisPass seen) request)
    (rest : ∀ answer later, Regular request answer →
      property (thisPass later) →
        ⟨request, answer⟩ ∈ thisPass later →
          Pursues post (next answer) later) :
    Pursues post (.call request next) seen := by
  refine ⟨justified, fun answer regular => ?_⟩
  apply rest answer _ regular
  · rw [thisPass_append seen answer other]
    exact growing _ _ holds
  · rw [thisPass_append seen answer other]
    exact List.mem_append_right _ List.mem_cons_self

theorem pursues_begin {next : Answer .announceSet → Program α}
    {post : α → History Answer → Prop}
    (rest : ∀ answer later, Pursues post (next answer) later) :
    Pursues post (.call .announceSet next) seen :=
  ⟨⟨False.elim, fun _ _ => nofun, fun _ _ => nofun, fun _ => nofun,
      fun _ => nofun⟩,
    fun answer _ => rest answer _⟩

variable {program : Program α}

theorem pursues_bind {middle : α → History Answer → Prop}
    {post : β → History Answer → Prop} {rest : α → Program β}
    (first : Pursues middle program seen)
    (second : ∀ value later, middle value (thisPass later) →
      Pursues post (rest value) later) :
    Pursues post (program.bind rest) seen :=
  Prog.Along.bind first second

theorem pursues_proceed {post : Except ε β → History Answer → Prop}
    {value : Except ε α} {rest : α → Program (Except ε β)}
    (failed : ∀ reason, value = .error reason →
      post (.error reason) (thisPass seen))
    (went : ∀ result, value = .ok result →
      Pursues post (rest result) seen) :
    Pursues post (Prog.proceed value rest) seen :=
  Prog.Along.proceed failed went

theorem pursues_idle (growing : Growing property)
    (idle : program.Only Call.IsIdle) (holds : property (thisPass seen)) :
    Pursues (fun _ pass => property pass) program seen := by
  refine Prog.Along.of_only ?_ idle holds
  intro seen request idle holds
  refine ⟨idle.justified _, fun answer _ => ?_⟩
  rw [thisPass_append seen answer idle.2]
  exact growing _ _ holds

theorem pursues_plain (growing : Growing property)
    (plain : program.Only Call.IsPlainChange)
    (answered : ∀ pass, property pass → Answered pass)
    (holds : property (thisPass seen)) :
    Pursues (fun _ pass => property pass) program seen := by
  refine Prog.Along.of_only ?_ plain holds
  intro seen request plain holds
  refine ⟨plain.justified (answered _ holds), fun answer _ => ?_⟩
  rw [thisPass_append seen answer plain.not_begin]
  exact growing _ _ holds

theorem pursues_fold {σ : Type} {step : σ → α → Program σ}
    (invariant : List α → σ → History Answer → Prop)
    (body : ∀ item items state seen,
      invariant (item :: items) state (thisPass seen) →
        Pursues (invariant items) (step state item) seen)
    (items : List α) (state : σ)
    (holds : invariant items state (thisPass seen)) :
    Pursues (invariant []) (Prog.fold step state items) seen :=
  Prog.Along.fold
    (fun items state seen => invariant items state (thisPass seen))
    body items state seen holds

end Programs

theorem Call.plainChange_of_quiet (quiet : request.IsQuiet)
    (unread : ¬ request.IsOpening) : request.IsPlainChange := by
  cases request with
  | announceSet => exact unread trivial
  | upsert | remove | edit => exact quiet.elim
  | update key change =>
    cases change with
    | setState => exact quiet.elim
    | _ => trivial
  | _ => trivial

theorem plainChange_of_quiet {α : Type} {program : Program α}
    (quiet : program.Only Call.IsQuiet)
    (unread : program.Only fun request => ¬ request.IsOpening) :
    program.Only Call.IsPlainChange :=
  (quiet.and unread).mono fun _ both => Call.plainChange_of_quiet both.1 both.2

theorem unread_of_common {α : Type} {program : Program α}
    (common : program.Only Call.IsCommon) :
    program.Only fun request => ¬ request.IsOpening :=
  common.mono fun _ common => common.plain.1

section Parts

variable (syncer : Syncer) (pass : PassContext) (item : Discovered)

theorem seedItem_plainChange (known : Option SharedItem)
    (paths : ResolvedPaths) :
    (syncer.seedItem pass item known paths).Only Call.IsPlainChange := by
  refine ⟨trivial, fun stamp => ⟨trivial, fun entries => ?_⟩⟩
  have seeding : ∀ program : Seeder.Program (Except String SeedOutcome),
      (Syncer.forItem item.key program).Only Call.IsPlainChange :=
    fun program => (Prog.Only.any program).lift fun _ _ => trivial
  apply (seeding _).attempt
  intro outcome
  refine ⟨trivial, fun set => ?_⟩
  apply Prog.Only.proceed
  intro _
  exact plainChange_of_quiet (syncer.recordIdentity_quiet ..)
    ((syncer.recordIdentity_plain ..).mono fun _ plain => plain.1)

theorem share_plainChange (known : Option SharedItem) :
    (syncer.share pass item known).Only Call.IsPlainChange := by
  have locating : ∀ item, (syncer.locate item).Only Call.IsPlainChange :=
    fun item => plainChange_of_quiet (syncer.locate_quiet item)
      (unread_of_common (syncer.locate_common item))
  unfold Syncer.share
  split
  · split
    · trivial
    · exact (plainChange_of_quiet (syncer.confirmLive_quiet ..)
        (confirmLive_unread syncer ..)).bind fun _ => trivial
  · apply (plainChange_of_quiet (syncer.withMedia_quiet item)
      (unread_of_common (syncer.withMedia_common item))).bind
    intro item
    split
    · exact (locating item).attempt fun _ => trivial
    · have recording : (syncer.record item).Only Call.IsPlainChange := by
        refine ⟨trivial, fun now => ⟨?_, fun _ => trivial⟩⟩
        show ShareState.pending ≠ .unshared
        decide
      apply recording.attempt
      intro _
      apply (locating item).attempt
      exact fun paths => seedItem_plainChange syncer pass item known paths

theorem recordFailure_plainChange (key : ItemKey) (reason : String)
    (report : SyncReport) :
    (Syncer.recordFailure pass key reason report).Only
      Call.IsPlainChange := by
  unfold Syncer.recordFailure
  dsimp only
  split
  · trivial
  · refine ⟨?_, fun _ => trivial⟩
    show ShareState.failed ≠ .unshared
    decide

end Parts

section Pass

variable {syncer : Syncer} {pass : PassContext} {seen : History Answer}

/-- An item is withdrawn on its own row's behalf. -/
theorem pursues_unshareOne {property : History Answer → Prop}
    (growing : Growing property) {item row : SharedItem}
    (folds : item = folded row)
    (justified : ∀ history, property history →
      Answered history ∧ Withdrawn history item.key ∧
        ∃ rows, ⟨.allItems, .ok rows⟩ ∈ history ∧ row ∈ rows)
    (sharing : row.state ≠ .unshared) (holds : property (thisPass seen)) :
    Pursues (fun _ history => property history) (Syncer.unshareOne item)
      seen := by
  have removing : Pursues (fun _ history => property history)
      (Syncer.removeOwn item) seen := by
    unfold Syncer.removeOwn
    split
    · rename_i hash named created
      refine pursues_call growing (by simp) holds ?_ fun _ _ _ held _ => held
      obtain ⟨answered, withdrawn, rows, read, member⟩ := justified _ holds
      refine ⟨fun _ => answered, fun _ _ => nofun, fun _ _ => nofun, ?_,
        fun _ => nofun⟩
      rintro other same
      cases same
      refine ⟨rows, row, read, member, sharing, ?_, ?_, ?_⟩
      · rw [folds] at created
        exact created
      · rw [folds] at named
        obtain ⟨recorded, same, rfl⟩ := Option.map_eq_some_iff.mp named
        exact ⟨recorded, same, (Rust.toAsciiLowercase_idem recorded).symm⟩
      · rw [folds] at withdrawn
        exact withdrawn
    · exact holds
  apply removing.bind
  intro _ later held
  refine pursues_call growing (by simp) held ?_ fun _ _ _ held _ => held
  obtain ⟨answered, withdrawn, -⟩ := justified _ held
  refine ⟨fun _ => answered, fun _ _ => nofun, ?_, fun _ => nofun,
    fun _ => nofun⟩
  rintro key lastError same
  cases same
  exact withdrawn

/-- What a pass works with once it applies anything, in terms of what it was
answered. -/
structure Applies (readings : Syncer.Readings) (discovery : Discovery)
    (rows : List SharedItem) (history : History Answer) : Prop where
  answered : Answered history
  complete : ∀ kind ∈ discovery.withdrawable, ∃ scan : SourceScan,
    ⟨.discover kind, .ok scan⟩ ∈ history ∧ scan.complete = true ∧
      ∀ item ∈ scan.items, item ∈ discovery.items
  ends : ⟨.shareEnds, .ok readings.ends⟩ ∈ history
  now : ⟨.nowEpoch, readings.now⟩ ∈ history
  read : ⟨.allItems, .ok rows⟩ ∈ history
  known : readings.known = rows.map folded

variable {readings : Syncer.Readings} {discovery : Discovery}
variable {rows : List SharedItem}

theorem growing_applies : Growing (Applies readings discovery rows) := by
  intro history entry applies
  have more : ∀ old : (request : Call) × Answer request, old ∈ history →
      old ∈ history ++ [entry] := fun _ => List.mem_append_left _
  obtain ⟨kind, scan, found⟩ := applies.answered
  refine ⟨⟨kind, scan, more _ found⟩, ?_, more _ applies.ends,
    more _ applies.now, more _ applies.read, applies.known⟩
  intro source member
  obtain ⟨scan, heard, rest⟩ := applies.complete source member
  exact ⟨scan, more _ heard, rest⟩

variable {history : History Answer}

theorem overdue_of_isOver {key : ItemKey}
    (applies : Applies readings discovery rows history)
    (isOver : readings.isOver key = true) : Overdue history key := by
  unfold Syncer.Readings.isOver at isOver
  cases found : Rust.collected readings.ends key with
  | none =>
    rw [found] at isOver
    cases isOver
  | some until_ =>
    rw [found] at isOver
    exact ⟨readings.ends, readings.now, until_, applies.ends, applies.now,
      Rust.mem_of_collected_eq_some found, of_decide_eq_true isOver⟩

theorem unlisted_of_isStale {item : SharedItem}
    (applies : Applies readings discovery rows history)
    (stale : Syncer.isStale (discovery.items.map (·.key))
      discovery.withdrawable item = true) : Unlisted history item.key := by
  simp only [Syncer.isStale, Bool.and_eq_true, decide_eq_true_eq] at stale
  obtain ⟨⟨withdrawable, untagged⟩, -⟩ := stale
  obtain ⟨scan, heard, complete, among⟩ :=
    applies.complete item.source withdrawable
  refine ⟨scan, heard, complete, fun other listed same => ?_⟩
  exact untagged (List.mem_map.mpr ⟨other, among other listed, same⟩)

theorem pursues_visit (item : Discovered) (report : SyncReport)
    (applies : Applies readings discovery rows (thisPass seen)) :
    Pursues (fun _ history => Applies readings discovery rows history)
      (syncer.visit pass readings report item) seen := by
  unfold Syncer.visit
  dsimp only
  split
  · rename_i isOver
    unfold Syncer.endShare
    split
    · exact applies
    · rename_i known found
      split
      · exact applies
      · rename_i sharing
        split
        · exact applies
        · rw [applies.known] at found
          obtain ⟨row, member, named, rfl⟩ := row_of_knownItems found
          have unsharing := pursues_unshareOne growing_applies rfl
            (fun history applies => ⟨applies.answered,
              .inr (named ▸ overdue_of_isOver applies isOver), rows,
                applies.read, member⟩) sharing applies
          refine pursues_bind unsharing fun done later applies => ?_
          cases done <;> exact applies
  · have watching := plainChange_of_quiet (syncer.watch_quiet pass item
      (knownItems readings.known item.key) readings.stamps report)
      ((syncer.watch_plain ..).mono fun _ plain => plain.1)
    refine pursues_bind (pursues_plain growing_applies watching
      (fun _ applies => applies.answered) applies) ?_
    intro report later applies
    refine pursues_bind (pursues_plain growing_applies
      (share_plainChange syncer pass item _)
      (fun _ applies => applies.answered) applies) ?_
    intro shared later applies
    cases shared with
    | ok step => exact applies
    | error reason =>
      exact pursues_plain growing_applies
        (recordFailure_plainChange pass item.key reason report)
        (fun _ applies => applies.answered) applies

theorem pursues_withdrawUntagged (dryRun : Bool)
    (applies : Applies readings discovery rows (thisPass seen)) :
    Pursues (fun _ _ => True)
      (Syncer.withdrawUntagged readings.known
        (discovery.items.map (·.key)) discovery.withdrawable dryRun) seen := by
  have iterating : (Call.iterate readings.known).IsIdle := ⟨id, by simp⟩
  refine pursues_call growing_applies iterating.2 applies
    (iterating.justified _) fun order later regular applies _ => ?_
  have permuted : order.Perm readings.known := regular
  refine Prog.Along.mono (pursues_fold
    (fun rest _ history => Applies readings discovery rows history ∧
      ∀ item ∈ rest, item ∈ order ∧ Syncer.isStale
        (discovery.items.map (·.key)) discovery.withdrawable item = true)
    ?_ _ _ ⟨applies, fun _ member => List.mem_filter.mp member⟩)
    fun _ _ _ => trivial
  rintro item rest count seen ⟨applies, among⟩
  have others : ∀ other ∈ rest, other ∈ order ∧ Syncer.isStale
      (discovery.items.map (·.key)) discovery.withdrawable other = true :=
    fun other member => among other (List.mem_cons_of_mem _ member)
  split
  · exact ⟨applies, others⟩
  · obtain ⟨visited, stale⟩ := among item List.mem_cons_self
    have known := permuted.mem_iff.mp visited
    rw [applies.known] at known
    obtain ⟨row, member, rfl⟩ := List.mem_map.mp known
    have sharing : row.state ≠ .unshared := by
      simp only [Syncer.isStale, Bool.and_eq_true,
        decide_eq_true_eq] at stale
      exact stale.2
    have unsharing := pursues_unshareOne growing_applies rfl
      (fun history applies => ⟨applies.answered,
        .inl (unlisted_of_isStale applies stale), rows, applies.read,
          member⟩) sharing applies
    refine pursues_bind unsharing fun done later applies => ?_
    cases done <;> exact ⟨applies, others⟩

theorem pursues_settle (report : SyncReport)
    (applies : Applies readings discovery rows (thisPass seen)) :
    Pursues (fun _ _ => True)
      (syncer.settle pass readings discovery report) seen := by
  have loop : Pursues (fun _ history => Applies readings discovery rows history)
      (Prog.fold (syncer.visit pass readings) report discovery.items) seen :=
    pursues_fold (fun _ _ history => Applies readings discovery rows history)
      (fun item _ report _ applies => pursues_visit item report applies)
      discovery.items report applies
  refine pursues_bind loop fun report later applies => ?_
  exact pursues_bind (pursues_withdrawUntagged pass.dryRun applies)
    fun _ _ _ => trivial

/-- What a discovery reports of the sources that answered. -/
structure Scanned (discovery : Discovery) (history : History Answer) :
    Prop where
  answered : discovery.scanned ≠ [] → Answered history
  complete : ∀ kind ∈ discovery.withdrawable, ∃ scan : SourceScan,
    ⟨.discover kind, .ok scan⟩ ∈ history ∧ scan.complete = true ∧
      ∀ item ∈ scan.items, item ∈ discovery.items

theorem growing_scanned (discovery : Discovery) :
    Growing (Scanned discovery) := by
  intro history entry scanned
  refine ⟨fun some_ => ?_, fun kind member => ?_⟩
  · obtain ⟨kind, scan, found⟩ := scanned.answered some_
    exact ⟨kind, scan, List.mem_append_left _ found⟩
  · obtain ⟨scan, heard, rest⟩ := scanned.complete kind member
    exact ⟨scan, List.mem_append_left _ heard, rest⟩

theorem Scanned.absorb {kind : MediaSource} {answer : Except String SourceScan}
    (scanned : Scanned discovery history)
    (heard : ⟨.discover kind, answer⟩ ∈ history) :
    Scanned (discovery.absorb kind answer) history := by
  cases answer with
  | error reason => exact ⟨scanned.answered, scanned.complete⟩
  | ok scan =>
    refine ⟨fun _ => ⟨kind, scan, heard⟩, fun other member => ?_⟩
    have earlier : other ∈ discovery.withdrawable →
        ∃ found : SourceScan, ⟨.discover other, .ok found⟩ ∈ history ∧
          found.complete = true ∧ ∀ item ∈ found.items,
            item ∈ (discovery.absorb kind (.ok scan)).items := by
      intro old
      obtain ⟨found, read, complete, among⟩ := scanned.complete other old
      exact ⟨found, read, complete, fun item listed =>
        List.mem_append_left _ (among item listed)⟩
    simp only [Discovery.absorb] at member
    split at member
    · rename_i complete
      rcases List.mem_append.mp member with old | new
      · exact earlier old
      · obtain rfl := List.mem_singleton.mp new
        exact ⟨scan, heard, complete, fun item listed =>
          List.mem_append_right _ listed⟩
    · exact earlier member

theorem pursues_discover (sources : List MediaSource) :
    Pursues (fun discovery history => Scanned discovery history)
      (discover sources) seen := by
  refine pursues_fold (fun _ discovery history => Scanned discovery history)
    ?_ sources _ ⟨fun some_ => absurd rfl some_, ?_⟩
  · intro kind kinds discovery seen scanned
    have asking : (Call.discover kind).IsIdle := ⟨id, by simp⟩
    refine pursues_call (growing_scanned discovery) asking.2 scanned
      (asking.justified _) fun answer later _ scanned heard => ?_
    exact scanned.absorb heard
  · exact fun _ member => absurd member List.not_mem_nil

/-- The readings a pass may withdraw by. -/
structure Opened (discovery : Discovery) (reads : Syncer.Reads)
    (history : History Answer) : Prop where
  scanned : Scanned discovery history
  rows : ⟨.allItems, reads.items⟩ ∈ history
  ends : ⟨.shareEnds, reads.ends⟩ ∈ history

theorem growing_opened (discovery : Discovery) (reads : Syncer.Reads) :
    Growing (Opened discovery reads) := fun history entry opened =>
  ⟨growing_scanned discovery history entry opened.scanned,
    List.mem_append_left _ opened.rows, List.mem_append_left _ opened.ends⟩

theorem pursues_readAll (scanned : Scanned discovery (thisPass seen)) :
    Pursues (fun reads history => Opened discovery reads history)
      Syncer.readAll seen := by
  have idle : ∀ {request : Call}, ¬ request.Changes → request ≠ .announceSet →
      ∀ history, Justified history request :=
    fun unchanging other => Call.IsIdle.justified ⟨unchanging, other⟩
  have scans := growing_scanned discovery
  refine pursues_call scans (by simp) scanned (idle id (by simp) _)
    fun torrents seen _ scanned _ => ?_
  refine pursues_call scans (by simp) scanned (idle id (by simp) _)
    fun items seen _ scanned read => ?_
  refine pursues_call (scans.and (growing_mem ⟨.allItems, items⟩)) (by simp)
    ⟨scanned, read⟩ (idle id (by simp) _) fun stamps seen _ both _ => ?_
  refine pursues_call (scans.and (growing_mem ⟨.allItems, items⟩)) (by simp)
    both (idle id (by simp) _) fun ends seen _ both dates => ?_
  refine pursues_call ((scans.and (growing_mem ⟨.allItems, items⟩)).and
    (growing_mem ⟨.shareEnds, ends⟩)) (by simp) ⟨both, dates⟩
    (idle id (by simp) _) fun origins seen _ all _ => ?_
  exact ⟨all.1.1, all.1.2, all.2⟩

theorem recordAudiences_plainChange
    (audiences : List (MediaSource × SourceAudience)) :
    (syncer.recordAudiences audiences).Only Call.IsPlainChange := by
  induction audiences with
  | nil => trivial
  | cons audience audiences ih =>
    exact ⟨trivial, fun _ => Prog.Only.proceed _ fun _ => ih⟩

theorem pursues_applyDiscovery {announce : AnnounceSet} {dryRun : Bool}
    {reads : Syncer.Reads}
    (opened : Opened discovery reads (thisPass seen)) :
    Pursues (fun _ _ => True)
      (syncer.applyDiscovery announce dryRun discovery reads) seen := by
  unfold Syncer.applyDiscovery
  split
  · trivial
  · rename_i some_
    apply pursues_proceed
    · exact fun _ _ => trivial
    · intro ends dates
      have dated := Rust.eq_ok_of_mapError (eq_ok_of_context dates)
      apply pursues_proceed
      · exact fun _ _ => trivial
      · intro origins _
        have noting : Call.nowEpoch.IsIdle := ⟨id, by simp⟩
        refine pursues_call (growing_opened discovery reads) noting.2 opened
          (noting.justified _) fun now later _ opened noted => ?_
        have growing := (growing_opened discovery reads).and
          (growing_mem ⟨.nowEpoch, now⟩)
        have recording : (if dryRun then .done (.ok ())
            else syncer.recordAudiences discovery.audiences).Only
              Call.IsPlainChange := by
          split
          · trivial
          · exact recordAudiences_plainChange _
        refine pursues_bind (pursues_plain growing recording
          (fun history both => both.1.scanned.answered some_)
            ⟨opened, noted⟩) fun result later both => ?_
        apply pursues_proceed
        · exact fun _ _ => trivial
        · intro _ _
          apply pursues_proceed
          · exact fun _ _ => trivial
          · intro torrents _
            apply pursues_proceed
            · exact fun _ _ => trivial
            · intro rows known
              have read := Rust.eq_ok_of_mapError known
              have applies : Applies
                  ⟨ends, now, rows.map folded, reads.stamps.toOption.getD []⟩
                  discovery rows (thisPass later) :=
                { answered := both.1.scanned.answered some_
                  complete := both.1.scanned.complete
                  ends := dated ▸ both.1.ends
                  now := both.2
                  read := read ▸ both.1.rows
                  known := rfl }
              exact pursues_settle _ applies

/-- A pass changes what it changes for a reason. -/
theorem pursues_run (dryRun : Bool) :
    Pursues (fun _ _ => True) (syncer.run dryRun) seen := by
  have reconciling : ∀ dryRun seen,
      Pursues (fun _ _ => True) (syncer.reconcile dryRun) seen := by
    intro dryRun seen
    have tracking : (if dryRun then .done (.ok ())
        else syncer.trackCapInForce).Only Call.IsIdle := by
      split
      · trivial
      · exact ⟨⟨id, by simp⟩, fun _ => ⟨⟨id, by simp⟩, fun _ => trivial⟩⟩
    refine pursues_bind (pursues_idle growing_true tracking trivial)
      fun _ seen _ => ?_
    apply pursues_proceed
    · exact fun _ _ => trivial
    · intro _ _
      have readying : Call.ensureReady.IsIdle := ⟨id, by simp⟩
      refine pursues_call growing_true readying.2 trivial
        (readying.justified _) fun ready seen _ _ _ => ?_
      apply pursues_proceed
      · exact fun _ _ => trivial
      · intro _ _
        refine pursues_begin fun answer seen => ?_
        apply pursues_proceed
        · exact fun _ _ => trivial
        · intro announce _
          refine pursues_bind (pursues_discover _)
            fun discovery seen scanned => ?_
          exact pursues_bind (pursues_readAll scanned)
            fun reads seen opened => pursues_applyDiscovery opened
  unfold Syncer.run
  split
  · exact reconciling true seen
  · have beginning : Call.beginRun.IsIdle := ⟨id, by simp⟩
    refine pursues_call growing_true beginning.2 trivial
      (beginning.justified _) fun begun seen _ _ _ => ?_
    apply pursues_proceed
    · exact fun _ _ => trivial
    · intro runId _
      refine pursues_bind (reconciling false seen) fun outcome seen _ => ?_
      exact pursues_idle growing_true
        ⟨⟨id, by simp⟩, fun _ => trivial⟩ trivial

/-- Passes and nothing else, under changing settings, each abandoned after its
number of calls. -/
def passes (work : List (Syncer × List (Bool × Nat))) :
    List (Syncer × List (Job × Nat)) :=
  work.map fun entry =>
    (entry.1, entry.2.map fun pass => (.run pass.1, pass.2))

theorem pursues_passes (work : List (Syncer × List (Bool × Nat))) :
    Pursues (fun _ _ => True) (sequence (passes work)) seen := by
  refine Prog.Along.mono (pursues_fold (fun rest _ _ => ∀ entry ∈ rest,
    ∀ job ∈ entry.2, ∃ dryRun, job.1 = .run dryRun) ?_ _ _ ?_)
    fun _ _ _ => trivial
  · intro entry entries _ seen among
    have renewing : Call.renew.IsIdle := ⟨id, by simp⟩
    refine pursues_call growing_true renewing.2 trivial
      (renewing.justified _) fun _ seen _ _ _ => ?_
    have jobs : Pursues (fun _ _ => True) (entry.1.jobs entry.2) seen := by
      refine Prog.Along.mono (pursues_fold (fun rest _ _ => ∀ job ∈ rest,
        ∃ dryRun, job.1 = .run dryRun) ?_ _ _
          (among entry List.mem_cons_self)) fun _ _ _ => trivial
      intro job jobs _ seen among
      obtain ⟨dryRun, same⟩ := among job List.mem_cons_self
      have whole : Pursues (fun _ _ => True) (entry.1.job job.1) seen := by
        rw [same]
        exact pursues_bind (pursues_run dryRun) fun _ _ _ => trivial
      have abandoned : Pursues (fun _ _ => True)
          ((entry.1.job job.1).cut job.2) seen := whole.cut job.2
      refine pursues_bind abandoned fun _ _ _ => ?_
      exact fun other member => among other (List.mem_cons_of_mem _ member)
    exact jobs.mono fun _ _ _ other member =>
      among other (List.mem_cons_of_mem _ member)
  · intro entry member job listed
    obtain ⟨source, -, rfl⟩ := List.mem_map.mp member
    obtain ⟨pass, -, rfl⟩ := List.mem_map.mp listed
    exact ⟨pass.1, rfl⟩

end Pass

section Steps

variable {world after : World} {request : Call} {answer : Answer request}

theorem perform_unchanging (thread : Nat) (unchanging : ¬ request.Changes)
    (performed : perform thread world request answer = some after) :
    after.items = world.items ∧ after.origins = world.origins ∧
      after.audience = world.audience ∧ after.client = world.client := by
  cases request with
  | upsert | update | setItemOrigin | replaceAudience | remove | seeder
  | edit => exact absurd trivial unchanging
  | trackCap | rememberLimits =>
    rcases writing_eq_some performed with rfl | rfl <;>
      exact ⟨rfl, rfl, rfl, rfl⟩
  | limitsApplied | list | allItems | fileStamps | shareEnds | itemOrigins
  | get | seedingItems | audiences =>
    rw [reading_eq_some performed]
    exact ⟨rfl, rfl, rfl, rfl⟩
  | discover kind =>
    unfold perform discovering at performed
    cases answer with
    | error reason =>
      cases performed
      exact ⟨rfl, rfl, rfl, rfl⟩
    | ok scan =>
      dsimp only at performed
      split at performed
      · cases performed
        exact ⟨rfl, rfl, rfl, rfl⟩
      · cases performed
  | iterate items =>
    simp only [perform] at performed
    split at performed
    · cases performed
      exact ⟨rfl, rfl, rfl, rfl⟩
    · cases performed
  | _ =>
    cases performed
    exact ⟨rfl, rfl, rfl, rfl⟩

/-- A row is unshared by being set so, or by being recorded so. -/
theorem unshared_of_performed (thread : Nat) {key : ItemKey}
    {row withdrawn : ItemRow} (found : world.items.row? key = some row)
    (sharing : row.state ≠ .unshared)
    (left : after.items.row? key = some withdrawn)
    (unshared : withdrawn.state = .unshared)
    (performed : perform thread world request answer = some after) :
    (∃ lastError, request = .update key (.setState .unshared lastError)) ∨
      ∃ item now, request = .upsert item now ∧ item.state = .unshared := by
  have moved : after.items ≠ world.items := by
    intro same
    rw [same, found] at left
    cases left
    exact sharing unshared
  by_cases writes : request.Writes
  · cases request with
    | upsert item now =>
      right
      rcases writing_eq_some performed with rfl | rfl
      · exact absurd rfl moved
      · refine ⟨item, now, rfl, ?_⟩
        rw [show (world.upsert item now).items.row? key = _ from
          ItemTable.row?_upsert .., found] at left
        split at left
        · cases left
          exact unshared
        · cases left
          exact absurd unshared sharing
    | update other update =>
      left
      rcases writing_eq_some performed with rfl | rfl
      · exact absurd rfl moved
      · rw [show (world.updateItem other update).items.row? key = _ from
          ItemTable.row?_update .., found] at left
        split at left
        · rename_i same
          subst same
          cases left
          cases update with
          | setState state lastError =>
            cases unshared
            exact ⟨lastError, rfl⟩
          | setSeeding | resetForRebuild => cases unshared
          | _ => exact absurd unshared sharing
        · cases left
          exact absurd unshared sharing
    | _ => exact writes.elim
  · exact absurd (perform_items thread writes performed) moved

/-- A torrent is gone from the client once it was removed, or somebody edited
the list. -/
theorem removed_of_performed (thread : Nat) {torrent : TorrentSummary}
    (held : torrent ∈ world.client) (gone : torrent ∉ after.client)
    (performed : perform thread world request answer = some after) :
    (∃ hash, request = .remove hash ∧ SameHash torrent.hash hash) ∨
      ∃ torrents, request = .edit torrents := by
  by_cases changes : request.Changes
  · cases request with
    | remove hash =>
      left
      rcases writing_eq_some performed with rfl | rfl
      · exact absurd held gone
      · refine ⟨hash, rfl, ?_⟩
        by_contra other
        exact gone (List.mem_filter.mpr ⟨held, by simpa using other⟩)
    | edit torrents => exact .inr ⟨torrents, rfl⟩
    | upsert | update | setItemOrigin | replaceAudience =>
      rcases writing_eq_some performed with rfl | rfl <;>
        exact absurd held gone
    | seeder key request =>
      exfalso
      apply gone
      cases request with
      | add request =>
        rcases writing_eq_some performed with rfl | rfl
        · exact held
        · unfold World.add
          split
          · exact held
          · exact List.mem_append_left _ held
      | isConfirmed infoHash announce =>
        simp only [perform, performSeeder] at performed
        split at performed
        · cases performed
        · cases performed
          exact held
      | _ =>
        cases performed
        exact held
    | _ => exact changes.elim
  · rw [(perform_unchanging thread changes performed).2.2.2] at gone
    exact absurd held gone

end Steps

section Runs

variable {work : List (Syncer × List (Bool × Nat))}
variable {visitors : Nat → Visitor} {world : World} {events : List Event}
variable {event : Event} {after : Pool}

/-- Every step of the syncer is justified. -/
theorem justified_of_run
    (run : Process.Run perform .always
      (startChanging (passes work) visitors world) (events ++ [event]) after)
    (own : event.thread = 0) :
    Justified (thisPass (historyOf 0 events)) event.request := by
  have along : Pursues (fun _ _ => True)
      ((startChanging (passes work) visitors world).threads 0) [] :=
    pursues_bind (pursues_passes work) fun _ _ _ => trivial
  exact run.allowed_of_along own
    (fun _ _ _ _ _ performed => regular_of_performed 0 performed) along

/-- Nobody else makes other calls than a visitor's. -/
theorem visit_of_run
    (run : Process.Run perform .always
      (startChanging (passes work) visitors world) (events ++ [event]) after)
    (other : event.thread ≠ 0) : event.request.IsVisit := by
  have along : ((startChanging (passes work) visitors world).threads
      event.thread).Along (fun _ _ => True) (fun _ request => request.IsVisit)
        (fun _ _ => True) [] := by
    have program : (startChanging (passes work) visitors world).threads
        event.thread = (visitors event.thread).program := if_neg other
    rw [program]
    exact Prog.Along.of_only (fun _ _ visit _ => ⟨visit, fun _ _ => trivial⟩)
      (visitors event.thread).visits trivial
  exact run.allowed_of_along rfl (fun _ _ _ _ _ _ => trivial) along

end Runs

/-- In every run of passes, from whatever state and under whatever settings, a
step makes a row unshared only if the row's source answered the pass completely
and did not list the item, or its date had passed; it takes a torrent from the
client only on behalf of such a row; and it changes nothing at all until some
source has answered the pass. -/
theorem only_complete_answers_withdraw
    (work : List (Syncer × List (Bool × Nat))) (visitors : Nat → Visitor)
    (world : World) (events : List Event) (event : Event)
    (before after : Pool)
    (ran : Process.Run perform .always
      (startChanging (passes work) visitors world) events before)
    (stepped : Process.Run perform .always
      (startChanging (passes work) visitors world) (events ++ [event])
        after) :
    (∀ key row withdrawn, before.world.items.row? key = some row →
      row.state ≠ .unshared → after.world.items.row? key = some withdrawn →
        withdrawn.state = .unshared →
          event.thread = 0 ∧ Withdrawn (thisPass (historyOf 0 events)) key) ∧
      (event.thread = 0 → ∀ torrent ∈ before.world.client,
        torrent ∉ after.world.client →
          OfWithdrawn (thisPass (historyOf 0 events)) torrent.hash) ∧
        (event.thread = 0 → ¬ Answered (thisPass (historyOf 0 events)) →
          after.world.items = before.world.items ∧
            after.world.origins = before.world.origins ∧
              after.world.audience = before.world.audience ∧
                after.world.client = before.world.client) := by
  obtain ⟨pool, next, left, run, -, -, performed, rfl⟩ := stepped.last
  obtain rfl := ran.unique run
  refine ⟨?_, ?_, ?_⟩
  · intro key row withdrawn found sharing gone unshared
    have reason := unshared_of_performed event.thread found sharing gone
      unshared performed
    by_cases own : event.thread = 0
    · have justified := justified_of_run stepped own
      refine ⟨own, ?_⟩
      rcases reason with ⟨lastError, asked⟩ | ⟨item, now, asked, recorded⟩
      · exact justified.unshared key lastError asked
      · exact absurd recorded (justified.recorded item now asked)
    · have visit := visit_of_run stepped own
      rcases reason with ⟨lastError, asked⟩ | ⟨item, now, asked, recorded⟩
      · rw [asked] at visit
        exact visit.elim
      · rw [asked] at visit
        exact visit.elim
  · intro own torrent held gone
    have justified := justified_of_run stepped own
    rcases removed_of_performed event.thread held gone performed with
      ⟨hash, asked, same⟩ | ⟨torrents, asked⟩
    · obtain ⟨rows, row, read, member, sharing, created,
        ⟨recorded, named, alike⟩, withdrawn⟩ := justified.removed hash asked
      exact ⟨rows, row, read, member, sharing, created,
        ⟨recorded, named, alike.trans same.symm⟩, withdrawn⟩
    · exact absurd asked (justified.unedited torrents)
  · intro own unanswered
    have justified := justified_of_run stepped own
    exact perform_unchanging event.thread
      (fun changes => unanswered (justified.answered changes)) performed

def taggedFilm : Environment :=
  .small (fun _ => none) ⟨[film 1], true, []⟩ valid_film

def untaggedLater : List (Syncer × List (Bool × Nat)) :=
  [(smallSyncer, [(false, 100), (false, 100)])]

/-- The film is shared in 28 calls; then it loses its tag. -/
def untagging : List Event :=
  (sequence (passes untaggedLater)).told
    (switched taggedFilm untaggedFilm 28) 0 0 (.fresh [])

/-- Its torrent is removed on behalf of the film, which the complete answer
left out. -/
theorem untagged_film_withdrawn :
    ∃ events event, ∃ before after : Pool, ∃ torrent,
      Process.Run perform .always
          (startChanging (passes untaggedLater) nobody (.fresh [])) events
            before ∧
        Process.Run perform .always
          (startChanging (passes untaggedLater) nobody (.fresh []))
            (events ++ [event]) after ∧
        torrent ∈ before.world.client ∧ torrent ∉ after.world.client ∧
          OfWithdrawn (thisPass (historyOf 0 events)) torrent.hash := by
  have first : (Process.replay perform (fun _ _ => true) []
      (startChanging (passes untaggedLater) nobody (.fresh []))
      (untagging.take 42)).map (·.world.client.length) = some 1 := by
    decide +kernel
  have second : (Process.replay perform (fun _ _ => true) []
      (startChanging (passes untaggedLater) nobody (.fresh []))
      (untagging.take 43)).map (·.world.client) = some [] := by
    decide +kernel
  obtain ⟨before, ran, held⟩ := Process.Run.exists_of_replay
    (fun _ _ _ => trivial) first
  obtain ⟨after, stepped, gone⟩ := Process.Run.exists_of_replay
    (fun _ _ _ => trivial) second
  have long : 42 < untagging.length := by decide +kernel
  have own : untagging[42].thread = 0 := by
    have whose : untagging[42]?.map (·.thread) = some 0 := by decide +kernel
    rw [List.getElem?_eq_getElem long] at whose
    exact Option.some.inj whose
  rw [← List.take_append_getElem long] at stepped
  obtain ⟨torrent, listed⟩ := List.length_eq_one_iff.mp held
  have member : torrent ∈ before.world.client := by
    rw [listed]
    exact List.mem_cons_self
  have absent : torrent ∉ after.world.client := by
    rw [gone]
    exact List.not_mem_nil
  exact ⟨_, _, before, after, torrent, ran, stepped, member, absent,
    (only_complete_answers_withdraw untaggedLater nobody (.fresh []) _ _ before
      after ran stepped).2.1 own torrent member absent⟩

end Sync

end Sharerr
