import Sharerr.Sync.Passes

/-!
# A pass, part by part

Whatever holds of a finished program, goes over from two programs to the one
after the other, and holds of the parts of a pass holds of the pass as a
whole.
-/

namespace Sharerr

namespace Sync

open Process (Prog)

/-- The calls of a pass outside `watch`, `confirmLive` and `seedItem`. -/
def Call.IsPart (request : Call) : Prop :=
  request.IsCommon ∨ request.IsOpening

/-- What goes over from programs to the program they make up. -/
structure Composes (Good : {α : Type} → Program α → Prop) : Prop where
  done : ∀ {α : Type} (value : α), Good (.done value : Program α)
  bind : ∀ {α β : Type} {program : Program α} {rest : α → Program β},
    Good program → (∀ value, Good (rest value)) → Good (program.bind rest)
  only : ∀ {α : Type} {program : Program α},
    program.Only Call.IsPart → Good program

/-- What is to be shown of the parts of a pass. -/
structure Parts (syncer : Syncer)
    (Good : {α : Type} → Program α → Prop) : Prop
    extends Composes Good where
  watches : ∀ pass item known stamps report,
    Good (syncer.watch pass item known stamps report)
  confirms : ∀ pass key known hash reported,
    Good (syncer.confirmLive pass key known hash reported)
  seeds : ∀ pass item known paths,
    Good (syncer.seedItem pass item known paths)

namespace Composes

variable {Good : {α : Type} → Program α → Prop} {α β σ ε : Type}

theorem common (composes : Composes Good) {program : Program α}
    (common : program.Only Call.IsCommon) : Good program :=
  composes.only (common.mono fun _ => .inl)

theorem call (composes : Composes Good) {request : Call}
    {next : Answer request → Program α} (part : request.IsPart)
    (rest : ∀ answer, Good (next answer)) : Good (.call request next) := by
  have asking : Good (.call request .done : Program (Answer request)) :=
    composes.only ⟨part, fun _ => trivial⟩
  exact composes.bind asking rest

theorem proceed (composes : Composes Good) (value : Except ε α)
    {rest : α → Program (Except ε β)} (went : ∀ result, Good (rest result)) :
    Good (Prog.proceed value rest) := by
  cases value with
  | error reason => exact composes.done _
  | ok result => exact went result

theorem attempt (composes : Composes Good)
    {program : Program (Except ε α)} {rest : α → Program (Except ε β)}
    (first : Good program) (went : ∀ result, Good (rest result)) :
    Good (program.attempt rest) :=
  composes.bind first fun value => composes.proceed value went

theorem fold (composes : Composes Good) {step : σ → α → Program σ}
    {items : List α} (body : ∀ state, ∀ item ∈ items, Good (step state item))
    (state : σ) : Good (Prog.fold step state items) := by
  induction items generalizing state with
  | nil => exact composes.done state
  | cons item items ih =>
    apply composes.bind (body state item List.mem_cons_self)
    exact ih fun state other member =>
      body state other (List.mem_cons_of_mem _ member)

end Composes

namespace Parts

variable {syncer : Syncer} {Good : {α : Type} → Program α → Prop}

theorem shareAnew (parts : Parts syncer Good) (pass : PassContext)
    (item : Discovered) (known : Option SharedItem) :
    Good (syncer.shareAnew pass item known) := by
  apply parts.bind (parts.common (syncer.withMedia_common item))
  intro item
  split
  · exact parts.attempt (parts.common (syncer.locate_common item))
      fun _ => parts.done _
  · apply parts.attempt (parts.common (syncer.record_common item))
    intro _
    apply parts.attempt (parts.common (syncer.locate_common item))
    exact fun paths => parts.seeds pass item known paths

theorem share (parts : Parts syncer Good) (pass : PassContext)
    (item : Discovered) (known : Option SharedItem) :
    Good (syncer.share pass item known) := by
  unfold Syncer.share
  split
  · split
    · exact parts.done _
    · exact parts.bind (parts.confirms ..) fun _ => parts.done _
  · exact parts.shareAnew pass item known

theorem visit (parts : Parts syncer Good) (pass : PassContext)
    (readings : Syncer.Readings) (report : SyncReport) (item : Discovered) :
    Good (syncer.visit pass readings report item) := by
  unfold Syncer.visit
  dsimp only
  split
  · exact parts.common (Syncer.endShare_common ..)
  · apply parts.bind (parts.watches ..)
    intro report
    apply parts.bind (parts.share pass item _)
    intro shared
    cases shared with
    | ok step => exact parts.done _
    | error reason => exact parts.common (Syncer.recordFailure_common ..)

theorem settle (parts : Parts syncer Good) (pass : PassContext)
    (readings : Syncer.Readings) (discovery : Discovery)
    (report : SyncReport) :
    Good (syncer.settle pass readings discovery report) := by
  apply parts.bind (parts.fold
    (fun report item _ => parts.visit pass readings report item) report)
  intro report
  apply parts.bind (parts.common (Syncer.withdrawUntagged_common ..))
  exact fun _ => parts.done _

theorem discover (parts : Parts syncer Good) (sources : List MediaSource) :
    Good (discover sources) := by
  refine parts.fold ?_ _
  intro discovery kind _
  have opening : (Call.discover kind).IsOpening := trivial
  exact parts.call (.inr opening) fun _ => parts.done _

theorem readAll (parts : Parts syncer Good) : Good Syncer.readAll := by
  apply parts.only
  exact ⟨.inr trivial, fun _ => ⟨.inr trivial, fun _ => ⟨.inr trivial,
    fun _ => ⟨.inr trivial, fun _ => ⟨.inr trivial, fun _ => trivial⟩⟩⟩⟩⟩

theorem applyReads (parts : Parts syncer Good) (announce : AnnounceSet)
    (dryRun : Bool) (discovery : Discovery) (reads : Syncer.Reads)
    (ends : List (ItemKey × Int)) (origins : OriginTable) (now : Int)
    (report : SyncReport) :
    Good (syncer.applyReads announce dryRun discovery reads ends origins now
      report) := by
  apply parts.proceed
  intro torrents
  apply parts.proceed
  exact fun items => parts.settle ..

theorem applyDiscovery (parts : Parts syncer Good) (announce : AnnounceSet)
    (dryRun : Bool) (discovery : Discovery) (reads : Syncer.Reads) :
    Good (syncer.applyDiscovery announce dryRun discovery reads) := by
  unfold Syncer.applyDiscovery
  split
  · exact parts.done _
  · apply parts.proceed
    intro ends
    apply parts.proceed
    intro origins
    have opening : Call.nowEpoch.IsOpening := trivial
    apply parts.call (.inr opening)
    intro now
    refine parts.attempt ?_ fun _ => parts.applyReads ..
    split
    · exact parts.done _
    · exact parts.common (syncer.recordAudiences_common _)

theorem reconcile (parts : Parts syncer Good) (dryRun : Bool) :
    Good (syncer.reconcile dryRun) := by
  have tracked : Good (if dryRun then .done (.ok ())
      else syncer.trackCapInForce) := by
    split
    · exact parts.done _
    · exact parts.common syncer.trackCapInForce_common
  apply parts.attempt tracked
  intro _
  have ready : Call.ensureReady.IsCommon := trivial
  apply parts.call (.inl ready)
  intro _
  apply parts.proceed
  intro _
  have opening : Call.announceSet.IsOpening := trivial
  apply parts.call (.inr opening)
  intro answer
  apply parts.proceed
  intro announce
  apply parts.bind (parts.discover _)
  intro discovery
  exact parts.bind parts.readAll fun reads => parts.applyDiscovery ..

theorem run (parts : Parts syncer Good) (dryRun : Bool) :
    Good (syncer.run dryRun) := by
  unfold Syncer.run
  split
  · exact parts.reconcile true
  · have begin_ : Call.beginRun.IsCommon := trivial
    apply parts.call (.inl begin_)
    intro begun
    apply parts.proceed
    intro runId
    apply parts.bind (parts.reconcile false)
    intro outcome
    exact parts.common ⟨trivial, fun _ => trivial⟩

/-- What holds of the parts of a pass holds of a whole job. -/
theorem job (parts : Parts syncer Good) (job : Job) :
    Good (syncer.job job) := by
  cases job with
  | run dryRun => exact parts.bind (parts.run dryRun) fun _ => parts.done _
  | unshare key | rebuild key =>
    exact parts.common (syncer.job_common (by simp))

theorem allJobs (parts : Parts syncer Good) (work : List Job) :
    Good (syncer.allJobs work) :=
  parts.fold (fun _ job _ => parts.job job) ()

/-- However the settings change, what holds of every syncer's parts holds. -/
theorem sequence (composes : Composes Good)
    (parts : ∀ syncer, Parts syncer Good)
    (work : List (Syncer × List Job)) : Good (wholeSequence work) := by
  refine composes.fold ?_ _
  intro _ entry _
  have renewing : Call.renew.IsCommon := trivial
  exact composes.call (.inl renewing) fun _ => (parts entry.1).allJobs entry.2

end Parts

end Sync

end Sharerr
