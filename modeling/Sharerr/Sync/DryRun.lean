import Sharerr.Sync.Alone

/-!
# A dry run

A dry run asks what a real run asks before it writes anything, and what a real
run then asks does not depend on what it wrote.  So a real run in which nothing
fails does what the dry run said.
-/

namespace Sharerr

namespace Sync

open Process

/-- What a pass only looks at. -/
def Call.IsReading : Call → Prop
  | .ensureReady | .announceSet | .discover _ | .list | .allItems | .fileStamps
  | .shareEnds | .itemOrigins | .nowEpoch | .probe .. | .tryExists ..
  | .fileStamp .. => True
  | _ => False

/-- The calls of a dry run: readings, and the order of a map. -/
def Call.IsDry : Call → Prop
  | .iterate _ => True
  | request => request.IsReading

theorem Call.Probes.reading {request : Call} (probes : request.Probes) :
    request.IsReading := by
  cases request with
  | probe | tryExists | fileStamp => trivial
  | _ => exact probes.elim

/-- Readings were answered so. -/
def Agrees (reads : ∀ request, Answer request) (events : List Event) : Prop :=
  ∀ event ∈ events, event.request.IsReading →
    event.answer = reads event.request

/-- Nothing went wrong in marking an item as withdrawn. -/
def AllMarked (events : List Event) : Prop :=
  ∀ key answer, (⟨0, .update key (.setState .unshared none), answer⟩ : Event) ∈
    events → answer = .ok ()

variable {request : Call}

theorem Call.IsReading.dry (reading : request.IsReading) :
    request.IsDry := by
  cases request with
  | iterate items => exact reading.elim
  | _ => exact reading

/-- A dry run's calls change nothing. -/
theorem perform_dry {thread : Nat} {world after : World}
    {answer : Answer request} (dry : request.IsDry)
    (performed : perform thread world request answer = some after) :
    after = world := by
  cases request with
  | discover kind =>
    cases answer with
    | error reason => exact (Option.some.inj performed).symm
    | ok scan =>
      simp only [perform, discovering] at performed
      split at performed
      · exact (Option.some.inj performed).symm
      · cases performed
  | list | allItems | fileStamps | shareEnds | itemOrigins =>
    exact reading_eq_some performed
  | iterate items =>
    simp only [perform] at performed
    split at performed
    · exact (Option.some.inj performed).symm
    · cases performed
  | ensureReady | announceSet | nowEpoch | probe | tryExists | fileStamp =>
    exact (Option.some.inj performed).symm
  | _ => exact dry.elim

namespace PassContext

/-- The same pass as a dry run. -/
def dry (pass : PassContext) : PassContext := { pass with dryRun := true }

end PassContext

namespace SyncReport

/-- What a dry run says where a run ends with this report: every item that was
shared is one it would add. -/
def predicted (report : SyncReport) : SyncReport :=
  { report with added := report.added + report.reused, reused := 0 }

end SyncReport

def Step.predicted : Step → Step
  | .added | .reused => .added
  | .unchanged => .unchanged

theorem SyncReport.predicted_count (report : SyncReport) (step : Step) :
    (report.count step).predicted = report.predicted.count step.predicted := by
  cases step with
  | added =>
    simp only [count, predicted, Step.predicted, Nat.add_right_comm]
  | reused => rfl
  | unchanged => rfl

section Readings

variable {reads : ∀ request, Answer request} {world after : World}
  {events : List Event}

variable {first second : List Event} {α : Type}

theorem Agrees.left (agrees : Agrees reads (first ++ second)) :
    Agrees reads first :=
  fun event member => agrees event (List.mem_append_left _ member)

theorem Agrees.right (agrees : Agrees reads (first ++ second)) :
    Agrees reads second :=
  fun event member => agrees event (List.mem_append_right _ member)

variable {event : Event} {program : Program α} {value : α}

theorem Agrees.tail (agrees : Agrees reads (event :: events)) :
    Agrees reads events :=
  fun event member => agrees event (List.mem_cons_of_mem _ member)

theorem AllMarked.left (marked : AllMarked (first ++ second)) :
    AllMarked first :=
  fun key answer member => marked key answer (List.mem_append_left _ member)

theorem AllMarked.right (marked : AllMarked (first ++ second)) :
    AllMarked second :=
  fun key answer member => marked key answer (List.mem_append_right _ member)

theorem AllMarked.tail (marked : AllMarked (event :: events)) :
    AllMarked events :=
  fun key answer member => marked key answer (List.mem_cons_of_mem _ member)

theorem answered_of_ends (only : program.Only Call.IsReading)
    (ends : Ends perform 0 world program events after value)
    (agrees : Agrees reads events) :
    after = world ∧ value = program.answeredBy reads :=
  ends.answeredBy fun event member _ performed =>
    have reading := ends.requests only event member
    ⟨perform_dry reading.dry performed, agrees event member reading⟩

theorem after_reading {β : Type} {rest : α → Program β} {value : β}
    (only : program.Only Call.IsReading) (agrees : Agrees reads events)
    (ends : Ends perform 0 world (program.bind rest) events after value) :
    ∃ earlier later, events = earlier ++ later ∧ Agrees reads later ∧
      Ends perform 0 world (rest (program.answeredBy reads)) later after
        value := by
  obtain ⟨earlier, later, middle, passed, rfl, first, ends⟩ :=
    Ends.bind_iff.mp ends
  obtain ⟨rfl, rfl⟩ := answered_of_ends only first agrees.left
  exact ⟨earlier, later, rfl, agrees.right, ends⟩

theorem after_asking {request : Call} {next : Answer request → Program α}
    (agrees : Agrees reads events)
    (ends : Ends perform 0 world (.call request next) events after value)
    (reading : request.IsReading) :
    ∃ earlier later, events = earlier ++ later ∧ Agrees reads later ∧
      Ends perform 0 world (next (reads request)) later after value := by
  have asks : (Prog.request request : Program _).Only Call.IsReading :=
    ⟨reading, fun _ => trivial⟩
  exact after_reading asks agrees ends

end Readings

end Sync

namespace Syncer

open Process Sync

variable (syncer : Syncer)

theorem withMedia_reading (item : Discovered) :
    (syncer.withMedia item).Only Call.IsReading :=
  (syncer.withMedia_probes item).mono fun _ => Call.Probes.reading

theorem locate_reading (item : Discovered) :
    (syncer.locate item).Only Call.IsReading :=
  (syncer.locate_probes item).mono fun _ => Call.Probes.reading

theorem currentStamp_reading (item : Discovered) :
    (syncer.currentStamp item).Only Call.IsReading :=
  (syncer.currentStamp_probes item).mono fun _ => Call.Probes.reading

theorem discover_reading (sources : List MediaSource) :
    (discover sources).Only Call.IsReading := by
  refine .fold ?_ _
  intro discovery kind _
  exact ⟨trivial, fun _ => trivial⟩

theorem readAll_reading : readAll.Only Call.IsReading :=
  ⟨trivial, fun _ => ⟨trivial, fun _ => ⟨trivial, fun _ =>
    ⟨trivial, fun _ => ⟨trivial, fun _ => trivial⟩⟩⟩⟩⟩

variable {syncer} {reads : ∀ request, Answer request} {world after : World}
  {events : List Event} {pass : PassContext}

theorem flagTorrent_predicted (report : SyncReport) (flagged : Flagged)
    (live : Option TorrentSummary) :
    (flagTorrent report flagged live).failed = report.failed ∧
      (flagTorrent report flagged live).predicted =
        flagTorrent report.predicted flagged live := by
  cases live with
  | none => exact ⟨rfl, rfl⟩
  | some torrent =>
    unfold flagTorrent
    dsimp only
    split <;> exact ⟨rfl, rfl⟩

variable {item : Discovered} {report settled : SyncReport}
  {known : Option SharedItem} {readings : Readings} {dryAfter dryWorld : World}
  {dryEvents : List Event} {outcome : Except String SyncReport}

variable {stamps : List (ItemKey × FileStamp)} {watched visited : SyncReport}
  {step : Step} {count : Nat} {dryRun : Bool} {discovery : Discovery}

theorem watchFile_predicts (real : pass.dryRun = false) {flagged : Flagged}
    (agrees : Agrees reads events)
    (ends : Ends perform 0 world
      (syncer.watchFile pass item stamps report flagged) events after
        watched) :
    watched.failed = report.failed ∧
      (syncer.watchFile pass.dry item stamps report.predicted
        flagged).answeredBy reads = watched.predicted := by
  obtain ⟨first, second, middle, stamp, rfl, looked, rest⟩ :=
    Ends.bind_iff.mp ends
  have told := (answered_of_ends (syncer.currentStamp_reading item) looked
    agrees.left).2
  rw [watchFile, Prog.answeredBy_bind, ← told]
  cases stamp with
  | none =>
    obtain ⟨-, -, rfl⟩ := Ends.done_iff.mp rest
    exact ⟨rfl, rfl⟩
  | some now =>
    dsimp only at rest ⊢
    split at rest
    · rename_i built _
      obtain ⟨-, -, rfl⟩ := Ends.done_iff.mp rest
      by_cases same : built = now
      · simp only [if_pos same, true_and]
        rfl
      · simp only [if_neg same, true_and]
        rfl
    · rw [real] at rest
      obtain ⟨answer, middle_, later, -, -, ended⟩ := Ends.call_iff.mp rest
      obtain ⟨-, -, rfl⟩ := Ends.done_iff.mp ended
      exact ⟨rfl, rfl⟩

theorem watch_predicts (real : pass.dryRun = false)
    (agrees : Agrees reads events)
    (ends : Ends perform 0 world
      (syncer.watch pass item known stamps report) events after watched) :
    watched.failed = report.failed ∧
      (syncer.watch pass.dry item known stamps report.predicted).answeredBy
        reads = watched.predicted := by
  unfold watch at ends ⊢
  split at ends
  · rename_i _ _ known hash hashed
    split at ends
    · rename_i ours
      rw [if_pos ours]
      have flagged := flagTorrent_predicted report ⟨hash, known.releaseTitle⟩
        (pass.live hash)
      dsimp only at ends ⊢
      rw [show pass.dry.live = pass.live from rfl, ← flagged.2, ← flagged.1]
      by_cases gone : (pass.live hash).isNone = true
      · rw [if_pos gone] at ends ⊢
        obtain ⟨-, -, rfl⟩ := Ends.done_iff.mp ends
        exact ⟨rfl, rfl⟩
      · rw [if_neg gone] at ends ⊢
        exact watchFile_predicts real agrees ends
    · rename_i notOurs
      obtain ⟨rfl, rfl, rfl⟩ := Ends.done_iff.mp ends
      rw [if_neg notOurs]
      exact ⟨rfl, rfl⟩
  · obtain ⟨rfl, rfl, rfl⟩ := Ends.done_iff.mp ends
    exact ⟨rfl, rfl⟩

theorem seedItem_step {paths : ResolvedPaths}
    (ends : Ends perform 0 world (syncer.seedItem pass item known paths) events
      after (.ok step)) : step.predicted = .added := by
  obtain ⟨stamp, _, _, -, -, ends⟩ := Ends.call_iff.mp ends
  obtain ⟨entries, _, _, -, -, ends⟩ := Ends.call_iff.mp ends
  obtain ⟨_, _, _, outcome, -, -, ends⟩ := Ends.attempt_ok ends
  obtain ⟨set, _, _, -, -, ends⟩ := Ends.call_iff.mp ends
  obtain ⟨-, -, ends⟩ := Ends.proceed_ok ends
  have recording {world after : World} {events : List Event}
      (entry : Recorded) (ends : Ends perform 0 world
        (syncer.recordIdentity item.key entry) events after (.ok step)) :
      step = entry.step := by
    unfold recordIdentity at ends
    dsimp only at ends
    split at ends
    · obtain ⟨_, _, _, -, -, ends⟩ := Ends.call_iff.mp ends
      obtain ⟨-, -, ends⟩ := Ends.proceed_ok ends
      obtain ⟨_, _, _, -, -, ends⟩ := Ends.call_iff.mp ends
      exact Except.ok.inj (Ends.done_iff.mp ends).2.2
    · obtain ⟨_, _, _, -, -, ends⟩ := Ends.call_iff.mp ends
      obtain ⟨-, -, ends⟩ := Ends.proceed_ok ends
      obtain ⟨_, _, _, -, -, ends⟩ := Ends.call_iff.mp ends
      obtain ⟨-, -, ends⟩ := Ends.proceed_ok ends
      obtain ⟨_, _, _, -, -, ends⟩ := Ends.call_iff.mp ends
      exact Except.ok.inj (Ends.done_iff.mp ends).2.2
  rw [recording _ ends]
  cases outcome with
  | added => rfl
  | reused => rfl
  | joined infoHash origin built => cases built <;> rfl

/-- An item that was shared is one the dry run said would be. -/
theorem share_predicts (real : pass.dryRun = false)
    (agrees : Agrees reads events)
    (ends : Ends perform 0 world (syncer.share pass item known) events after
      (.ok step)) :
    (syncer.share pass.dry item known).answeredBy reads =
      .ok step.predicted := by
  unfold share at ends ⊢
  rw [show pass.dry.settled known = pass.settled known from rfl]
  split at ends
  · rw [real] at ends
    obtain ⟨_, _, _, _, -, -, ends⟩ := Ends.bind_iff.mp ends
    obtain ⟨-, -, same⟩ := Ends.done_iff.mp ends
    rw [Except.ok.inj same]
    rfl
  · unfold shareAnew at ends ⊢
    obtain ⟨first, rest, _, media, rfl, probed, ends⟩ := Ends.bind_iff.mp ends
    have told := (answered_of_ends (syncer.withMedia_reading item) probed
      agrees.left).2
    rw [real] at ends
    obtain ⟨_, _, _, _, rfl, -, ends⟩ := Ends.attempt_ok ends
    obtain ⟨_, _, _, paths, rfl, located, ends⟩ := Ends.attempt_ok ends
    have there := (answered_of_ends (syncer.locate_reading media) located
      agrees.right.right.left).2
    have dry : pass.dry.dryRun = true := rfl
    rw [Prog.answeredBy_bind, ← told, if_pos dry, Prog.attempt,
      Prog.answeredBy_bind, ← there, seedItem_step ends]
    rfl

theorem unshareOne_marked {item : SharedItem} {answer : Except StoreError Unit}
    (marked : AllMarked events)
    (ends : Ends perform 0 world (unshareOne item) events after answer) :
    answer = .ok () := by
  obtain ⟨_, _, _, _, rfl, -, ends⟩ := Ends.bind_iff.mp ends
  obtain ⟨told, _, _, rfl, -, ends⟩ := Ends.call_iff.mp ends
  obtain ⟨rfl, -, rfl⟩ := Ends.done_iff.mp ends
  exact marked item.key _ (List.mem_append_right _ List.mem_cons_self)

theorem endShare_predicts (real : pass.dryRun = false) {ended : SyncReport}
    (marked : AllMarked events)
    (ends : Ends perform 0 world (endShare pass known report) events after
      ended) :
    ended.failed = report.failed ∧
      (endShare pass.dry known report.predicted).answeredBy reads =
        ended.predicted := by
  unfold endShare at ends ⊢
  cases known with
  | none =>
    obtain ⟨-, -, rfl⟩ := Ends.done_iff.mp ends
    exact ⟨rfl, rfl⟩
  | some known =>
    dsimp only at ends ⊢
    by_cases unshared : known.state = .unshared
    · rw [if_pos unshared] at ends ⊢
      obtain ⟨-, -, rfl⟩ := Ends.done_iff.mp ends
      exact ⟨rfl, rfl⟩
    · rw [if_neg unshared, real] at ends
      rw [if_neg unshared]
      obtain ⟨_, _, _, answer, rfl, withdrawn, ends⟩ :=
        Ends.bind_iff.mp ends
      rw [unshareOne_marked marked.left withdrawn] at ends
      obtain ⟨-, -, rfl⟩ := Ends.done_iff.mp ends
      exact ⟨rfl, rfl⟩

theorem recordFailure_failed {key : ItemKey} {reason : String}
    {recorded : SyncReport}
    (ends : Ends perform 0 world (recordFailure pass key reason report) events
      after recorded) : recorded.failed = report.failed + 1 := by
  unfold recordFailure at ends
  dsimp only at ends
  split at ends
  · obtain ⟨-, -, rfl⟩ := Ends.done_iff.mp ends
    rfl
  · obtain ⟨_, _, _, -, -, ends⟩ := Ends.call_iff.mp ends
    obtain ⟨-, -, rfl⟩ := Ends.done_iff.mp ends
    rfl

/-- A turn after which no more items have failed is one the dry run
predicts. -/
theorem visit_predicts (real : pass.dryRun = false)
    (agrees : Agrees reads events) (marked : AllMarked events)
    (ends : Ends perform 0 world (syncer.visit pass readings report item)
      events after visited) :
    report.failed ≤ visited.failed ∧
      (visited.failed = report.failed →
        (syncer.visit pass.dry readings report.predicted item).answeredBy
          reads = visited.predicted) := by
  unfold visit at ends ⊢
  dsimp only at ends ⊢
  by_cases late : readings.isOver item.key = true
  · rw [if_pos late] at ends ⊢
    obtain ⟨kept, predicted⟩ := endShare_predicts real marked ends
    exact ⟨kept.ge, fun _ => predicted⟩
  · rw [if_neg late] at ends ⊢
    obtain ⟨_, _, _, watched, rfl, watching, ends⟩ := Ends.bind_iff.mp ends
    obtain ⟨kept, seen⟩ := watch_predicts real agrees.left watching
    obtain ⟨_, _, _, shared, rfl, sharing, ends⟩ := Ends.bind_iff.mp ends
    cases shared with
    | ok step =>
      obtain ⟨-, -, rfl⟩ := Ends.done_iff.mp ends
      have counted : (watched.count step).failed = report.failed := by
        rw [← kept]
        cases step <;> rfl
      refine ⟨counted.ge, fun _ => ?_⟩
      rw [Prog.answeredBy_bind, seen, Prog.answeredBy_bind,
        share_predicts real agrees.right.left sharing,
        SyncReport.predicted_count]
      rfl
    | error reason =>
      have more := recordFailure_failed ends
      rw [kept] at more
      exact ⟨by omega, fun same => by omega⟩

/-- A loop in which nothing failed is one the dry run predicts. -/
theorem visits_predict (real : pass.dryRun = false) {items : List Discovered}
    (agrees : Agrees reads events) (marked : AllMarked events)
    (ends : Ends perform 0 world
      (Prog.fold (syncer.visit pass readings) report items) events after
        visited) :
    report.failed ≤ visited.failed ∧
      (visited.failed = report.failed →
        (Prog.fold (syncer.visit pass.dry readings) report.predicted
          items).answeredBy reads = visited.predicted) := by
  induction items generalizing world events report with
  | nil =>
    obtain ⟨-, -, rfl⟩ := Ends.done_iff.mp ends
    exact ⟨Nat.le_refl _, fun _ => rfl⟩
  | cons item items ih =>
    obtain ⟨_, _, _, between, rfl, visit, rest⟩ := Ends.bind_iff.mp ends
    obtain ⟨first, now⟩ := visit_predicts real agrees.left marked.left visit
    obtain ⟨more, later⟩ := ih agrees.right marked.right rest
    refine ⟨first.trans more, fun same => ?_⟩
    rw [Prog.fold_cons, Prog.answeredBy_bind, now (by omega),
      later (by omega)]

theorem withdrawals_count {stale : List SharedItem} {start : Nat}
    (marked : dryRun = false → AllMarked events)
    (ends : Ends perform 0 world (Prog.fold (fun count item =>
      if dryRun then .done (count + 1)
      else (unshareOne item).bind fun
        | .ok _ => .done (count + 1)
        | .error _ => .done count) start stale) events after count) :
    count = start + stale.length := by
  induction stale generalizing start world events with
  | nil => exact (Ends.done_iff.mp ends).2.2
  | cons item items ih =>
    obtain ⟨_, _, _, more, rfl, one, rest⟩ := Ends.bind_iff.mp ends
    have counted : more = start + 1 := by
      cases dryRun with
      | true => exact (Ends.done_iff.mp one).2.2
      | false =>
        obtain ⟨_, _, _, answer, rfl, withdrawn, one⟩ :=
          Ends.bind_iff.mp one
        rw [unshareOne_marked (marked rfl).left.left withdrawn] at one
        exact (Ends.done_iff.mp one).2.2
    rw [ih (fun real => (marked real).right) rest, counted,
      List.length_cons]
    omega

/-- Withdrawing counts every item, unless one could not be marked. -/
theorem withdrawUntagged_counts {known : List SharedItem}
    {tagged : List ItemKey} {withdrawable : List MediaSource}
    (marked : dryRun = false → AllMarked events)
    (ends : Ends perform 0 world
      (withdrawUntagged known tagged withdrawable dryRun) events after count) :
    count = (known.filter (isStale tagged withdrawable)).length := by
  obtain ⟨order, middle, _, rfl, ordered, ends⟩ := Ends.call_iff.mp ends
  have same : order.Perm known := by
    simp only [perform] at ordered
    split at ordered
    · rename_i permuted
      exact List.isPerm_iff.mp permuted
    · cases ordered
  rw [withdrawals_count (fun real => (marked real).tail) ends, Nat.zero_add,
    (same.filter _).length_eq]

section Dry

variable (dry : pass.dryRun = true)

include dry

theorem endShare_dry (known : Option SharedItem) (report : SyncReport) :
    (endShare pass known report).Only Call.IsReading := by
  unfold endShare
  split
  · trivial
  · split
    · trivial
    · trivial

theorem recordFailure_dry (key : ItemKey) (reason : String)
    (report : SyncReport) :
    (recordFailure pass key reason report).Only Call.IsReading := by
  unfold recordFailure
  dsimp only
  rw [if_pos dry]
  trivial

variable (syncer)

theorem watch_dry (item : Discovered) (known : Option SharedItem)
    (stamps : List (ItemKey × FileStamp)) (report : SyncReport) :
    (syncer.watch pass item known stamps report).Only Call.IsReading := by
  unfold watch
  split
  · split
    · dsimp only
      split
      · trivial
      · refine (syncer.currentStamp_reading item).bind fun stamp => ?_
        cases stamp with
        | none => trivial
        | some now =>
          dsimp only
          split
          · trivial
          · rw [if_pos dry]
            trivial
    · trivial
  · trivial

theorem share_dry (item : Discovered) (known : Option SharedItem) :
    (syncer.share pass item known).Only Call.IsReading := by
  unfold share
  split
  · rw [if_pos dry]
    trivial
  · refine (syncer.withMedia_reading item).bind fun item => ?_
    rw [if_pos dry]
    exact (syncer.locate_reading item).attempt fun _ => trivial

theorem visit_dry (readings : Readings) (report : SyncReport)
    (item : Discovered) :
    (syncer.visit pass readings report item).Only Call.IsReading := by
  unfold visit
  dsimp only
  split
  · exact endShare_dry dry _ _
  · refine (syncer.watch_dry dry item _ _ report).bind fun report => ?_
    refine (syncer.share_dry dry item _).bind fun shared => ?_
    cases shared with
    | ok step => trivial
    | error reason => exact recordFailure_dry dry _ _ _

end Dry

theorem withdrawUntagged_dry (known : List SharedItem)
    (tagged : List ItemKey) (withdrawable : List MediaSource) :
    (withdrawUntagged known tagged withdrawable true).Only Call.IsDry := by
  refine ⟨trivial, fun order => .fold ?_ _⟩
  exact fun _ _ _ => trivial

theorem settle_dry (dry : pass.dryRun = true) (readings : Readings)
    (discovery : Discovery) (report : SyncReport) :
    (syncer.settle pass readings discovery report).Only Call.IsDry := by
  have visits : (Prog.fold (syncer.visit pass readings) report
      discovery.items).Only Call.IsReading :=
    .fold (fun report item _ => syncer.visit_dry dry readings report item) _
  refine (visits.mono fun _ reading => reading.dry).bind fun report => ?_
  rw [dry]
  exact (withdrawUntagged_dry ..).bind fun _ => trivial

theorem applyDiscovery_dry (announce : AnnounceSet) (discovery : Discovery)
    (reads : Reads) :
    (syncer.applyDiscovery announce true discovery reads).Only
      Call.IsDry := by
  unfold applyDiscovery
  split
  · trivial
  · refine .proceed _ fun ends => .proceed _ fun origins =>
      ⟨trivial, fun now => ?_⟩
    refine .proceed _ fun torrents => .proceed _ fun items => ?_
    exact syncer.settle_dry rfl _ _ _

/-- A dry run only reads. -/
theorem run_dry : (syncer.run true).Only Call.IsDry := by
  refine ⟨trivial, fun _ => .proceed _ fun _ => ⟨trivial, fun answer =>
    .proceed _ fun announce => ?_⟩⟩
  refine ((discover_reading _).mono fun _ reading => reading.dry).bind
    fun discovery => ?_
  refine (readAll_reading.mono fun _ reading => reading.dry).bind
    fun reads => ?_
  exact syncer.applyDiscovery_dry announce discovery reads

theorem settle_predicts (real : pass.dryRun = false)
    (agrees : Agrees reads events) (marked : AllMarked events)
    (ends : Ends perform 0 world
      (syncer.settle pass readings discovery report) events after
        (.ok settled)) (dryAgrees : Agrees reads dryEvents)
    (dryEnds : Ends perform 0 dryWorld
      (syncer.settle pass.dry readings discovery report.predicted) dryEvents
        dryAfter outcome) (same : settled.failed = report.failed) :
    outcome = .ok settled.predicted := by
  obtain ⟨_, _, _, visited, rfl, visits, ends⟩ := Ends.bind_iff.mp ends
  have visiting := visits_predict real agrees.left marked.left visits
  obtain ⟨_, _, _, count, rfl, withdrawals, ends⟩ := Ends.bind_iff.mp ends
  obtain ⟨-, -, told⟩ := Ends.done_iff.mp ends
  obtain rfl := Except.ok.inj told
  have counted := withdrawUntagged_counts
    (fun _ => marked.right.left) withdrawals
  have dryVisits : (Prog.fold (syncer.visit pass.dry readings) report.predicted
      discovery.items).Only Call.IsReading :=
    .fold (fun report item _ => syncer.visit_dry rfl readings report item) _
  obtain ⟨_, _, rfl, dryAgrees, dryEnds⟩ :=
    after_reading dryVisits dryAgrees dryEnds
  rw [visiting.2 same] at dryEnds
  obtain ⟨_, _, _, dryCount, rfl, dryWithdrawals, dryEnds⟩ :=
    Ends.bind_iff.mp dryEnds
  obtain ⟨-, -, rfl⟩ := Ends.done_iff.mp dryEnds
  have dryCounted := withdrawUntagged_counts
    (fun (unlike : pass.dry.dryRun = false) => nomatch unlike) dryWithdrawals
  rw [dryCounted, counted]
  rfl

theorem applyDiscovery_predicts {announce : AnnounceSet} {readAs : Reads}
    (agrees : Agrees reads events) (marked : AllMarked events)
    (ends : Ends perform 0 world
      (syncer.applyDiscovery announce false discovery readAs) events after
        (.ok settled)) (dryAgrees : Agrees reads dryEvents)
    (dryEnds : Ends perform 0 dryWorld
      (syncer.applyDiscovery announce true discovery readAs) dryEvents
        dryAfter outcome) (unfailing : settled.failed = 0) :
    outcome = .ok settled.predicted := by
  unfold applyDiscovery at ends dryEnds
  by_cases nothing : discovery.scanned = []
  · rw [if_pos nothing] at ends
    cases (Ends.done_iff.mp ends).2.2
  · rw [if_neg nothing] at ends dryEnds
    obtain ⟨shareEnds, dated, ends⟩ := Ends.proceed_ok ends
    obtain ⟨origins, joined, ends⟩ := Ends.proceed_ok ends
    rw [dated, Prog.proceed, joined, Prog.proceed] at dryEnds
    obtain ⟨_, _, rfl, agrees, ends⟩ := after_asking agrees ends trivial
    obtain ⟨_, _, rfl, dryAgrees, dryEnds⟩ :=
      after_asking dryAgrees dryEnds trivial
    obtain ⟨_, _, _, _, rfl, -, ends⟩ := Ends.attempt_ok ends
    obtain ⟨torrents, listed, ends⟩ := Ends.proceed_ok ends
    obtain ⟨items, stored, ends⟩ := Ends.proceed_ok ends
    change Ends perform 0 dryWorld (syncer.applyReads announce true discovery
      readAs shareEnds origins _ _) _ _ _ at dryEnds
    rw [applyReads, listed, Prog.proceed, stored, Prog.proceed] at dryEnds
    exact settle_predicts rfl agrees.right marked.right.right ends dryAgrees
      dryEnds unfailing

theorem reconcile_predicts (agrees : Agrees reads events)
    (marked : AllMarked events)
    (ends : Ends perform 0 world (syncer.reconcile false) events after
      (.ok settled)) (dryAgrees : Agrees reads dryEvents)
    (dryEnds : Ends perform 0 dryWorld (syncer.reconcile true) dryEvents
      dryAfter outcome) (unfailing : settled.failed = 0) :
    outcome = .ok settled.predicted := by
  obtain ⟨_, _, _, _, rfl, -, ends⟩ := Ends.attempt_ok ends
  obtain ⟨_, _, rfl, agrees, ends⟩ := after_asking agrees.right ends trivial
  obtain ⟨_, _, rfl, dryAgrees, dryEnds⟩ :=
    after_asking dryAgrees dryEnds trivial
  obtain ⟨ready, isReady, ends⟩ := Ends.proceed_ok ends
  rw [isReady, Prog.proceed] at dryEnds
  obtain ⟨_, _, rfl, agrees, ends⟩ := after_asking agrees ends trivial
  obtain ⟨_, _, rfl, dryAgrees, dryEnds⟩ :=
    after_asking dryAgrees dryEnds trivial
  obtain ⟨announce, announced, ends⟩ := Ends.proceed_ok ends
  rw [announced, Prog.proceed] at dryEnds
  obtain ⟨_, _, rfl, agrees, ends⟩ :=
    after_reading (discover_reading _) agrees ends
  obtain ⟨_, _, rfl, dryAgrees, dryEnds⟩ :=
    after_reading (discover_reading _) dryAgrees dryEnds
  obtain ⟨_, _, rfl, agrees, ends⟩ := after_reading readAll_reading agrees ends
  obtain ⟨_, _, rfl, dryAgrees, dryEnds⟩ :=
    after_reading readAll_reading dryAgrees dryEnds
  exact applyDiscovery_predicts agrees marked.right.right.right.right.right
    ends dryAgrees dryEnds unfailing

theorem run_predicts (agrees : Agrees reads events) (marked : AllMarked events)
    (ends : Ends perform 0 world (syncer.run false) events after (.ok settled))
    (dryAgrees : Agrees reads dryEvents)
    (dryEnds : Ends perform 0 dryWorld (syncer.run true) dryEvents dryAfter
      outcome) (unfailing : settled.failed = 0) :
    outcome = .ok settled.predicted := by
  obtain ⟨begun, _, _, rfl, -, ends⟩ := Ends.call_iff.mp ends
  obtain ⟨runId, -, ends⟩ := Ends.proceed_ok ends
  obtain ⟨_, _, _, result, rfl, reconciled, ends⟩ := Ends.bind_iff.mp ends
  obtain ⟨_, _, _, rfl, -, ends⟩ := Ends.call_iff.mp ends
  obtain ⟨-, -, rfl⟩ := Ends.done_iff.mp ends
  exact reconcile_predicts agrees.tail.left marked.tail.left reconciled
    dryAgrees dryEnds unfailing

end Syncer

namespace Sync

open Process

/-- A dry run changes nothing.  A real run from the same state in which no item
failed and every withdrawal was marked does what the dry run said. -/
theorem dry_run_predicts (syncer : Syncer) (world after : World)
    (events : List Event) (outcome : Except String SyncReport)
    (dry : Ends perform 0 world (syncer.run true) events after outcome) :
    (after = world ∧ ∀ event ∈ events, event.request.IsDry) ∧
      ∀ (reads : ∀ request, Answer request) (realEvents : List Event)
        (realAfter : World) (report : SyncReport),
        Ends perform 0 world (syncer.run false) realEvents realAfter
          (.ok report) →
        Agrees reads events → Agrees reads realEvents →
        AllMarked realEvents → report.failed = 0 →
          outcome = .ok report.predicted := by
  refine ⟨⟨?_, dry.requests syncer.run_dry⟩, ?_⟩
  · exact dry.keeps syncer.run_dry (· = world)
      (fun before request answer later asked performed same =>
        (perform_dry asked performed).trans same) rfl
  · intro reads realEvents realAfter report real agrees realAgrees marked
      unfailing
    exact Syncer.run_predicts realAgrees marked real agrees dry unfailing

/-- Whether a reading was answered so. -/
def answeredSo (reads : ∀ request, Answer request) : Event → Bool
  | ⟨_, .ensureReady, answer⟩ => answer = reads .ensureReady
  | ⟨_, .announceSet, answer⟩ => answer = reads .announceSet
  | ⟨_, .discover kind, answer⟩ => answer = reads (.discover kind)
  | ⟨_, .list, answer⟩ => answer = reads .list
  | ⟨_, .allItems, answer⟩ => answer = reads .allItems
  | ⟨_, .fileStamps, answer⟩ => answer = reads .fileStamps
  | ⟨_, .shareEnds, answer⟩ => answer = reads .shareEnds
  | ⟨_, .itemOrigins, answer⟩ => answer = reads .itemOrigins
  | ⟨_, .nowEpoch, answer⟩ => answer = reads .nowEpoch
  | ⟨_, .probe key path, answer⟩ => answer = reads (.probe key path)
  | ⟨_, .tryExists key path, answer⟩ => answer = reads (.tryExists key path)
  | ⟨_, .fileStamp key path, answer⟩ => answer = reads (.fileStamp key path)
  | _ => true

variable {events : List Event}

theorem agrees_of_check {reads : ∀ request, Answer request}
    (checked : events.all (answeredSo reads) = true) :
    Agrees reads events := by
  rintro ⟨thread, request, answer⟩ member reading
  have so := List.all_eq_true.mp checked _ member
  cases request with
  | ensureReady | announceSet | discover | list | allItems | fileStamps
  | shareEnds | itemOrigins | nowEpoch | probe | tryExists | fileStamp =>
    exact of_decide_eq_true so
  | _ => exact reading.elim

/-- Whether an event is not a withdrawal that could not be marked. -/
def marks : Event → Bool
  | ⟨_, .update _ (.setState .unshared none), .error _⟩ => false
  | _ => true

theorem marked_of_check (checked : events.all marks = true) :
    AllMarked events := by
  intro key answer member
  have marking := List.all_eq_true.mp checked _ member
  cases answer with
  | ok done => rfl
  | error reason => cases marking

/-- The small library lists one film and its store knows another. -/
def oneUntagged (fault : Call → Option String) : Environment :=
  .small fault ⟨[film 1], true, []⟩ valid_film

def otherFilm : World :=
  (World.fresh []).upsert ((film 2).intoSharedItem "Alphaville") 1699990000

/-- What is read there. -/
def readThere (fault : Call → Option String) (request : Call) :
    Answer request :=
  ((oneUntagged fault).respond 0 otherFilm request).1

/-- How a run there ends. -/
def endsThere (fault : Call → Option String) (dryRun : Bool) :
    Except String SyncReport :=
  ((smallSyncer.run dryRun).alone (oneUntagged fault).respond 0
    otherFilm).value

def toldThere (fault : Call → Option String) (dryRun : Bool) : List Event :=
  (smallSyncer.run dryRun).told (oneUntagged fault).respond 0 0 otherFilm

theorem ends_there (fault : Call → Option String) (dryRun : Bool) :
    Ends perform 0 otherFilm (smallSyncer.run dryRun) (toldThere fault dryRun)
      ((smallSyncer.run dryRun).alone (oneUntagged fault).respond 0
        otherFilm).world (endsThere fault dryRun) :=
  .of_alone (oneUntagged fault).admitted _ _ _

/-- One film is added and one withdrawn, as the dry run says. -/
theorem one_untagged_predicted :
    endsThere (fun _ => none) true = .ok { SyncReport.default with
      discovered := 1, added := 1, unshared := 1 } := by
  have ended : endsThere (fun _ => none) false = .ok { SyncReport.default with
      discovered := 1, added := 1, unshared := 1 } := by decide +kernel
  have real := ends_there (fun _ => none) false
  rw [ended] at real
  exact (dry_run_predicts _ _ _ _ _ (ends_there (fun _ => none) true)).2
    (readThere fun _ => none) _ _ _ real
    (agrees_of_check (by decide +kernel)) (agrees_of_check (by decide +kernel))
    (marked_of_check (by decide +kernel)) rfl

/-- The store cannot mark an item as withdrawn. -/
def unmarkable : Call → Option String
  | .update _ (.setState .unshared none) => some "database is locked"
  | _ => none

/-- A withdrawal that could not be marked is not a failure, and not what the
dry run said. -/
theorem unmarked_withdrawal_unpredicted :
    ∃ (reads : ∀ request, Answer request) (world after : World)
      (events dryEvents : List Event) (report said : SyncReport),
      Ends perform 0 world (smallSyncer.run false) events after (.ok report) ∧
        Ends perform 0 world (smallSyncer.run true) dryEvents world
          (.ok said) ∧
        Agrees reads events ∧ Agrees reads dryEvents ∧ report.failed = 0 ∧
          said.unshared = 1 ∧ report.unshared = 0 := by
  have ended : endsThere unmarkable false = .ok { SyncReport.default with
      discovered := 1, added := 1 } := by decide +kernel
  have predicted : endsThere unmarkable true = .ok { SyncReport.default with
      discovered := 1, added := 1, unshared := 1 } := by decide +kernel
  have real := ends_there unmarkable false
  have dry := ends_there unmarkable true
  rw [ended] at real
  rw [predicted] at dry
  exact ⟨readThere unmarkable, otherFilm, _, _, _, _, _, real, dry,
    agrees_of_check (by decide +kernel), agrees_of_check (by decide +kernel),
    rfl, rfl, rfl⟩

end Sync

end Sharerr
