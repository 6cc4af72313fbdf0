import Sharerr.Process.History
import Sharerr.Sync.Alone
import Sharerr.Sync.Rules

/-!
# Who an item is for

A source reports some of its items for certain friends only.  A pass records
that before it shares anything, and a feed reads it beside the items.  Where a
later pass leaves the item out, its audience is gone before the item is
withdrawn.
-/

namespace Sharerr

namespace Sync

open Process

/-- What became of the audience an item was last reported with. -/
inductive Phase where
  /-- It is not recorded yet. -/
  | told
  | recorded
  /-- Another audience of its source was recorded since. -/
  | overtaken
deriving DecidableEq, Repr

structure Pledge where
  audience : SourceAudience
  phase : Phase
deriving DecidableEq, Repr

/-- An audience of the item's source is recorded. -/
def Pledge.record (pledge : Pledge) (audience : SourceAudience) : Pledge :=
  if audience = pledge.audience then { pledge with phase := .recorded }
  else if pledge.phase = .told then pledge
  else { pledge with phase := .overtaken }

/-- The pledge of an item after one more answer. -/
def advancePledge (key : ItemKey) (pledge : Option Pledge) :
    ((request : Call) × Answer request) → Option Pledge
  | ⟨.discover kind, .ok scan⟩ =>
    if kind = key.1 ∧ ∃ item ∈ scan.items, item.key = key then
      some ⟨scan.audience, .told⟩
    else pledge
  | ⟨.replaceAudience kind audience, .ok _⟩ =>
    if kind = key.1 then pledge.map (·.record audience) else pledge
  | _ => pledge

/-- The audience of the last completed discovery that reported the item. -/
def lastPledge (key : ItemKey) (seen : History Answer) : Option Pledge :=
  seen.foldl (advancePledge key) none

theorem lastPledge_append (key : ItemKey) (seen : History Answer)
    (entry : (request : Call) × Answer request) :
    lastPledge key (seen ++ [entry]) =
      advancePledge key (lastPledge key seen) entry := by
  rw [lastPledge, List.foldl_append]
  rfl

/-- The item was last reported for these friends only, and that has been
recorded. -/
def Promised (key : ItemKey) (friends : List String) (past : List Event) :
    Prop :=
  ∃ pledge, lastPledge key (historyOf 0 past) = some pledge ∧
    pledge.phase ≠ .told ∧ pledge.audience.friends key.2 = friends ∧
      friends ≠ []

/-- The item is one the feed may list. -/
def World.Seeds (world : World) (key : ItemKey) : Prop :=
  ∃ row, world.items.row? key = some row ∧ row.state = .seeding

/-- Where the audience of a promised item is dropped, the item is not in the
feed. -/
def Retained (key : ItemKey) (moment : Moment) (event : Event) : Prop :=
  ∀ friends audience, Promised key friends moment.past →
    event = ⟨0, .replaceAudience key.1 audience, .ok ()⟩ →
      audience.friends key.2 = [] → ¬ moment.world.Seeds key

/-- While `thread` is between its two queries, nothing recorded changes who the
item is for. -/
def Steady (key : ItemKey) (thread : Nat) (moment : Moment) (event : Event) :
    Prop :=
  ∀ audience, (historyOf thread moment.past).length = 1 →
    event = ⟨0, .replaceAudience key.1 audience, .ok ()⟩ →
      ∀ friend, friend ∈ audience.friends key.2 ↔
        friend ∈ moment.world.audience.friends key

/-- The calls that put an item into the feed. -/
def Call.Shares : Call → ItemKey → Prop
  | .upsert item _, key => item.key = key ∧ item.state = .seeding
  | .update other (.setState state _), key => other = key ∧ state = .seeding
  | .update other (.setSeeding ..), key => other = key
  | _, _ => False

/-- An item is shared once its audience is recorded, and an audience names only
items its source has just reported. -/
structure Entitled (seen : History Answer) (request : Call) : Prop where
  shares : ∀ key, request.Shares key →
    ∃ audience, lastPledge key seen = some ⟨audience, .recorded⟩
  records : ∀ kind audience, request = .replaceAudience kind audience →
    ∀ fileId, audience.friends fileId ≠ [] →
      lastPledge (kind, fileId) seen = some ⟨audience, .told⟩

/-- What a source can answer. -/
def Reportable : (request : Call) → Answer request → Prop
  | .discover kind, .ok scan => scan.Valid kind
  | _, _ => True

variable {request : Call} {α : Type}

theorem reportable_of_performed (thread : Nat) {world after : World}
    {answer : Answer request}
    (performed : perform thread world request answer = some after) :
    Reportable request answer := by
  cases request with
  | discover kind =>
    cases answer with
    | error reason => trivial
    | ok scan =>
      unfold perform discovering at performed
      dsimp only at performed
      split at performed
      · assumption
      · cases performed
  | _ => trivial

/-- The calls that neither share nor have to do with audiences. -/
def Call.IsStill : Call → Prop
  | .discover _ | .replaceAudience .. | .update _ (.setSeeding ..) => False
  | .upsert item _ => item.state ≠ .seeding
  | .update _ (.setState state _) => state ≠ .seeding
  | _ => True

theorem Call.IsQuiet.still (quiet : request.IsQuiet) :
    request.IsStill := by
  cases request with
  | upsert | replaceAudience | discover => exact quiet.elim
  | update key change =>
    cases change with
    | setState | setSeeding => exact quiet.elim
    | _ => trivial
  | _ => trivial

theorem Call.Withdraws.still (withdraws : request.Withdraws) :
    request.IsStill := by
  cases request with
  | get | iterate | remove | setItemOrigin => trivial
  | update key change =>
    cases change with
    | resetForRebuild => trivial
    | setState => exact withdraws
    | _ => exact withdraws.elim
  | _ => exact withdraws.elim

theorem Call.IsStill.entitled {request : Call} (still : request.IsStill)
    (seen : History Answer) : Entitled seen request := by
  constructor
  · intro key shares
    cases request with
    | upsert item now => exact absurd shares.2 still
    | update other change =>
      cases change with
      | setState state lastError => exact absurd shares.2 still
      | setSeeding => exact still.elim
      | _ => exact shares.elim
    | _ => exact shares.elim
  · rintro kind audience rfl
    exact still.elim

/-- The calls a pledge comes from. -/
def Call.Pledges : Call → Prop
  | .discover _ | .replaceAudience .. => True
  | _ => False

theorem lastPledge_unchanged (other : ¬ request.Pledges) (key : ItemKey)
    (seen : History Answer) (answer : Answer request) :
    lastPledge key (seen ++ [⟨request, answer⟩]) = lastPledge key seen := by
  rw [lastPledge_append]
  cases request with
  | discover | replaceAudience => exact absurd trivial other
  | _ => rfl

theorem lastPledge_still (still : request.IsStill) (key : ItemKey)
    (seen : History Answer) (answer : Answer request) :
    lastPledge key (seen ++ [⟨request, answer⟩]) = lastPledge key seen := by
  refine lastPledge_unchanged (fun pledges => ?_) key seen answer
  cases request with
  | discover | replaceAudience => exact still.elim
  | _ => exact pledges.elim

abbrev Discloses {α : Type} (post : α → History Answer → Prop)
    (program : Program α) (seen : History Answer) : Prop :=
  program.Along Reportable Entitled post seen

/-- A statement that rests on what was pledged. -/
def Calm (property : History Answer → Prop) : Prop :=
  ∀ seen (request : Call) (answer : Answer request), request.IsStill →
    property seen → property (seen ++ [⟨request, answer⟩])

variable {program : Program α} {property : History Answer → Prop}
  {seen : History Answer} {event : Event}

theorem discloses_still (calm : Calm property)
    (still : program.Only Call.IsStill) (holds : property seen) :
    Discloses (fun _ later => property later) program seen := by
  refine Prog.Along.of_only ?_ still holds
  exact fun seen request still held => ⟨still.entitled seen,
    fun answer _ => calm seen request answer still held⟩

theorem discloses_call {α : Type} {property : History Answer → Prop}
    {request : Call} {next : Answer request → Program α}
    {post : α → History Answer → Prop} {seen : History Answer}
    (calm : Calm property) (still : request.IsStill) (holds : property seen)
    (rest : ∀ answer later, property later →
      Discloses post (next answer) later) :
    Discloses post (.call request next) seen :=
  ⟨still.entitled seen, fun answer _ =>
    rest answer _ (calm seen request answer still holds)⟩

theorem still_of_quiet (quiet : program.Only Call.IsQuiet) :
    program.Only Call.IsStill :=
  quiet.mono fun _ => Call.IsQuiet.still

theorem still_of_withdraws (withdraws : program.Only Call.Withdraws) :
    program.Only Call.IsStill :=
  withdraws.mono fun _ => Call.Withdraws.still

section Parts

variable (syncer : Syncer)

theorem record_still (item : Discovered) :
    (syncer.record item).Only Call.IsStill := by
  refine ⟨trivial, fun now => ⟨?_, fun _ => trivial⟩⟩
  show ShareState.pending ≠ .seeding
  decide

theorem seeding_still (key : ItemKey)
    (program : Seeder.Program (Except String SeedOutcome)) :
    (Syncer.forItem key program).Only Call.IsStill :=
  (Prog.Only.any program).lift fun _ _ => trivial

theorem readAll_still : Syncer.readAll.Only Call.IsStill :=
  ⟨trivial, fun _ => ⟨trivial, fun _ => ⟨trivial, fun _ => ⟨trivial,
    fun _ => ⟨trivial, fun _ => trivial⟩⟩⟩⟩⟩

end Parts

/-- What the items of a pass were last reported with is recorded. -/
def AllRecorded (items : List Discovered) (seen : History Answer) : Prop :=
  ∀ item ∈ items, ∃ audience,
    lastPledge item.key seen = some ⟨audience, .recorded⟩

theorem calm_allRecorded (items : List Discovered) :
    Calm (AllRecorded items) := by
  intro seen request answer still recorded item member
  rw [lastPledge_still still]
  exact recorded item member

section Pass

variable {syncer : Syncer} {pass : PassContext} {seen : History Answer}
variable {items : List Discovered} {item : Discovered}

/-- A pass that changes anything has recorded the audiences of its items. -/
abbrev ReadyToShare (dryRun : Bool) (items : List Discovered)
    (seen : History Answer) : Prop :=
  dryRun = true ∨ AllRecorded items seen

theorem calm_readyToShare (dryRun : Bool) (items : List Discovered) :
    Calm (ReadyToShare dryRun items) := fun seen request answer still ready =>
  ready.imp_right (calm_allRecorded items seen request answer still)

theorem discloses_seedItem (known : Option SharedItem)
    (paths : ResolvedPaths) (member : item ∈ items)
    {found : Discovered} (same : found.key = item.key)
    (recorded : AllRecorded items seen) :
    Discloses (fun _ later => AllRecorded items later)
      (syncer.seedItem pass found known paths) seen := by
  have calm := calm_allRecorded items
  refine discloses_call calm trivial recorded fun stamp seen recorded => ?_
  refine discloses_call calm trivial recorded fun entries seen recorded => ?_
  refine Prog.Along.bind (discloses_still calm (seeding_still _ _) recorded)
    fun outcome seen recorded => ?_
  apply Prog.Along.proceed
  · exact fun _ _ => recorded
  · intro outcome _
    refine ⟨⟨?_, fun _ _ => nofun⟩, fun set _ => ?_⟩
    · intro key shares
      have named : found.key = key := shares
      rw [← named, same]
      exact recorded item member
    · have later : AllRecorded items (seen ++ [⟨.update found.key
          (.setSeeding outcome.infoHash pass.tokenFp
            (Syncer.recorded stamp outcome).created
            (Syncer.recorded stamp outcome).isPrivate), set⟩]) := by
        intro other among
        rw [lastPledge_append]
        exact recorded other among
      apply Prog.Along.proceed
      · exact fun _ _ => later
      · intro _ _
        exact discloses_still calm
          (still_of_quiet (syncer.recordIdentity_quiet ..)) later

theorem discloses_share (known : Option SharedItem) (member : item ∈ items)
    (ready : ReadyToShare pass.dryRun items seen) :
    Discloses (fun _ later => ReadyToShare pass.dryRun items later)
      (syncer.share pass item known) seen := by
  have calm := calm_readyToShare pass.dryRun items
  unfold Syncer.share
  split
  · split
    · exact ready
    · exact Prog.Along.bind (discloses_still calm
        (still_of_quiet (syncer.confirmLive_quiet ..)) ready)
        fun _ _ ready => ready
  · have probing : Discloses
        (fun found later => found.key = item.key ∧
          ReadyToShare pass.dryRun items later)
        (syncer.withMedia item) seen := by
      unfold Syncer.withMedia
      split
      · exact discloses_call calm trivial ready
          fun media later ready => ⟨rfl, ready⟩
      · exact ⟨rfl, ready⟩
    refine Prog.Along.bind probing fun found seen ⟨same, ready⟩ => ?_
    split
    · refine Prog.Along.bind (discloses_still calm
        (still_of_quiet (syncer.locate_quiet _)) ready) fun _ _ ready => ?_
      exact Prog.Along.proceed (fun _ _ => ready) fun _ _ => ready
    · rename_i wet
      refine Prog.Along.bind (discloses_still calm (record_still syncer _)
        ready) fun _ seen ready => ?_
      refine Prog.Along.proceed (fun _ _ => ready) fun _ _ => ?_
      refine Prog.Along.bind (discloses_still calm
        (still_of_quiet (syncer.locate_quiet _)) ready) fun _ seen ready => ?_
      refine Prog.Along.proceed (fun _ _ => ready) fun paths _ => ?_
      exact (discloses_seedItem known paths member same
        (ready.resolve_left wet)).mono fun _ _ recorded => .inr recorded

theorem discloses_visit (readings : Syncer.Readings) (report : SyncReport)
    (member : item ∈ items) (ready : ReadyToShare pass.dryRun items seen) :
    Discloses (fun _ later => ReadyToShare pass.dryRun items later)
      (syncer.visit pass readings report item) seen := by
  have calm := calm_readyToShare pass.dryRun items
  unfold Syncer.visit
  dsimp only
  split
  · exact discloses_still calm
      (still_of_withdraws (Syncer.endShare_withdraws ..)) ready
  · refine Prog.Along.bind (discloses_still calm
      (still_of_quiet (syncer.watch_quiet ..)) ready) fun _ seen ready => ?_
    refine Prog.Along.bind (discloses_share _ member ready)
      fun shared seen ready => ?_
    cases shared with
    | ok step => exact ready
    | error reason =>
      exact discloses_still calm
        (still_of_withdraws (Syncer.recordFailure_withdraws ..)) ready

theorem discloses_settle (readings : Syncer.Readings) (discovery : Discovery)
    (report : SyncReport)
    (ready : ReadyToShare pass.dryRun discovery.items seen) :
    Discloses (fun _ _ => True)
      (syncer.settle pass readings discovery report) seen := by
  have loop : Discloses
      (fun _ later => (∀ item ∈ ([] : List Discovered),
        item ∈ discovery.items) ∧
          ReadyToShare pass.dryRun discovery.items later)
      (Prog.fold (syncer.visit pass readings) report discovery.items)
        seen := by
    refine Prog.Along.fold
      (fun rest _ later => (∀ item ∈ rest, item ∈ discovery.items) ∧
        ReadyToShare pass.dryRun discovery.items later)
      ?_ _ _ _ ⟨fun _ member => member, ready⟩
    rintro item rest report seen ⟨among, ready⟩
    refine (discloses_visit readings report (among item List.mem_cons_self)
      ready).mono fun _ _ ready => ⟨?_, ready⟩
    exact fun other member => among other (List.mem_cons_of_mem _ member)
  refine Prog.Along.bind loop fun report seen ⟨_, ready⟩ => ?_
  exact Prog.Along.bind (discloses_still
    (calm_readyToShare pass.dryRun discovery.items)
    (still_of_withdraws (Syncer.withdrawUntagged_withdraws ..)) ready)
    fun _ _ _ => trivial

/-- What the sources that answered reported is in the discovery, each item
beside the audience it was reported with. -/
structure Heralded (discovery : Discovery) (seen : History Answer) :
    Prop where
  distinct : (discovery.audiences.map (·.1)).Nodup
  told : ∀ item ∈ discovery.items, ∃ audience,
    (item.source, audience) ∈ discovery.audiences ∧
      lastPledge item.key seen = some ⟨audience, .told⟩
  named : ∀ kind audience, (kind, audience) ∈ discovery.audiences →
    ∀ fileId, audience.friends fileId ≠ [] →
      ∃ item ∈ discovery.items, item.key = (kind, fileId)

theorem calm_heralded (discovery : Discovery) :
    Calm (Heralded discovery) := by
  intro seen request answer still heralded
  refine ⟨heralded.distinct, fun item member => ?_, heralded.named⟩
  rw [lastPledge_still still]
  exact heralded.told item member

variable {discovery : Discovery} {kind : MediaSource}

theorem Heralded.absorb {answer : Except String SourceScan}
    (heralded : Heralded discovery seen)
    (fresh : kind ∉ discovery.audiences.map (·.1))
    (reportable : Reportable (.discover kind) answer) :
    Heralded (discovery.absorb kind answer)
      (seen ++ [⟨.discover kind, answer⟩]) := by
  cases answer with
  | error reason =>
    refine ⟨heralded.distinct, fun item member => ?_, heralded.named⟩
    rw [lastPledge_append]
    exact heralded.told item member
  | ok scan =>
    have valid : scan.Valid kind := reportable
    refine ⟨?_, ?_, ?_⟩
    · simp only [Discovery.absorb, List.map_append, List.map_cons,
        List.map_nil]
      exact heralded.distinct.append (List.nodup_singleton _)
        (by simpa using fresh)
    · intro item member
      rw [lastPledge_append]
      rcases List.mem_append.mp member with old | new
      · obtain ⟨audience, listed, told⟩ := heralded.told item old
        refine ⟨audience, List.mem_append_left _ listed, ?_⟩
        have other : ¬ (kind = item.key.1 ∧
            ∃ found ∈ scan.items, found.key = item.key) := by
          rintro ⟨same, -⟩
          apply fresh
          rw [same]
          exact List.mem_map.mpr ⟨_, listed, rfl⟩
        rw [advancePledge, if_neg other, told]
      · have own : item.source = kind := valid.1 item new
        refine ⟨scan.audience, ?_, ?_⟩
        · rw [own]
          exact List.mem_append_right _ List.mem_cons_self
        · have same : kind = item.key.1 := own.symm
          rw [advancePledge, if_pos ⟨same, item, new, rfl⟩]
    · intro source audience listed fileId some_
      rcases List.mem_append.mp listed with old | new
      · obtain ⟨item, member, named⟩ :=
          heralded.named source audience old fileId some_
        exact ⟨item, List.mem_append_left _ member, named⟩
      · cases List.mem_singleton.mp new
        obtain ⟨friend, friends⟩ := List.exists_mem_of_ne_nil _ some_
        obtain ⟨entry, entered, -⟩ := List.mem_flatMap.mp friends
        obtain ⟨listed, file⟩ := List.mem_filter.mp entered
        obtain ⟨item, member, found⟩ := (valid.2.2 entry listed).2
        refine ⟨item, List.mem_append_right _ member, ?_⟩
        rw [Discovered.key, valid.1 item member, found,
          of_decide_eq_true file]

theorem discloses_discover (sources : List MediaSource)
    (distinct : sources.Nodup) :
    Discloses (fun discovery later => Heralded discovery later)
      (discover sources) seen := by
  have begun : Heralded .default seen :=
    ⟨List.nodup_nil, fun _ member => absurd member List.not_mem_nil,
      fun _ _ member => absurd member List.not_mem_nil⟩
  have loop : Discloses
      (fun discovery later => ([] : List MediaSource).Nodup ∧
        Heralded discovery later ∧ ∀ kind ∈ discovery.audiences.map (·.1),
          kind ∉ ([] : List MediaSource)) (discover sources) seen := by
    refine Prog.Along.fold
      (fun kinds discovery later => kinds.Nodup ∧ Heralded discovery later ∧
        ∀ kind ∈ discovery.audiences.map (·.1), kind ∉ kinds)
      ?_ _ _ _ ⟨distinct, begun, fun _ member => absurd member
        List.not_mem_nil⟩
    · rintro kind kinds discovery seen ⟨distinct, heralded, apart⟩
      have fresh : kind ∉ discovery.audiences.map (·.1) :=
        fun listed => apart kind listed List.mem_cons_self
      refine ⟨⟨fun _ shares => shares.elim, fun _ _ => nofun⟩,
        fun answer reportable => ⟨distinct.of_cons,
          heralded.absorb fresh reportable, ?_⟩⟩
      intro other listed later
      cases answer with
      | error reason =>
        exact apart other listed (List.mem_cons_of_mem _ later)
      | ok scan =>
        simp only [Discovery.absorb, List.map_append, List.map_cons,
          List.map_nil, List.mem_append, List.mem_singleton] at listed
        rcases listed with old | rfl
        · exact apart other old (List.mem_cons_of_mem _ later)
        · exact (List.nodup_cons.mp distinct).1 later
  exact loop.mono fun _ _ ended => ended.2.1

/-- The audiences of some of the items are recorded, those of the others are
still to come. -/
structure Recording (items : List Discovered)
    (audiences : List (MediaSource × SourceAudience))
    (seen : History Answer) : Prop where
  distinct : (audiences.map (·.1)).Nodup
  items : ∀ item ∈ items,
    (item.source ∉ audiences.map (·.1) ∧
      ∃ audience, lastPledge item.key seen = some ⟨audience, .recorded⟩) ∨
    ∃ audience, (item.source, audience) ∈ audiences ∧
      lastPledge item.key seen = some ⟨audience, .told⟩
  named : ∀ kind audience, (kind, audience) ∈ audiences →
    ∀ fileId, audience.friends fileId ≠ [] →
      lastPledge (kind, fileId) seen = some ⟨audience, .told⟩

theorem Recording.next {audience : SourceAudience}
    {audiences : List (MediaSource × SourceAudience)}
    (recording : Recording items ((kind, audience) :: audiences) seen) :
    Recording items audiences
      (seen ++ [⟨.replaceAudience kind audience, .ok ()⟩]) := by
  have distinct := List.nodup_cons.mp recording.distinct
  have other : ∀ key : ItemKey, key.1 ≠ kind →
      lastPledge key (seen ++ [⟨.replaceAudience kind audience, .ok ()⟩]) =
        lastPledge key seen := by
    intro key different
    rw [lastPledge_append, advancePledge, if_neg (Ne.symm different)]
  refine ⟨distinct.2, ?_, ?_⟩
  · intro item member
    rcases recording.items item member with
      ⟨done, found, recorded⟩ | ⟨own, listed, told⟩
    · rw [List.map_cons, List.mem_cons, not_or] at done
      rw [other item.key done.1]
      exact .inl ⟨done.2, found, recorded⟩
    · rcases List.mem_cons.mp listed with here | later
      · obtain ⟨source, same⟩ := Prod.mk.inj here
        left
        refine ⟨source ▸ distinct.1, audience, ?_⟩
        have named : kind = item.key.1 := source.symm
        rw [lastPledge_append, advancePledge, if_pos named, told, same,
          Option.map_some, Pledge.record, if_pos rfl]
      · have source : item.key.1 ≠ kind := by
          intro same
          exact distinct.1 (same ▸ List.mem_map.mpr ⟨_, later, rfl⟩)
        rw [other item.key source]
        exact .inr ⟨own, later, told⟩
  · intro source who listed fileId some_
    have different : source ≠ kind := by
      rintro rfl
      exact distinct.1 (List.mem_map.mpr ⟨_, listed, rfl⟩)
    rw [other (source, fileId) different]
    exact recording.named source who (List.mem_cons_of_mem _ listed) fileId
      some_

theorem discloses_recordAudiences
    (audiences : List (MediaSource × SourceAudience))
    (recording : Recording items audiences seen) :
    Discloses (fun result later => ∀ done, result = .ok done →
        AllRecorded items later)
      (syncer.recordAudiences audiences) seen := by
  induction audiences generalizing seen with
  | nil =>
    intro _ _ item member
    rcases recording.items item member with ⟨-, recorded⟩ | ⟨_, listed, -⟩
    · exact recorded
    · exact absurd listed List.not_mem_nil
  | cons entry audiences ih =>
    obtain ⟨kind, audience⟩ := entry
    refine ⟨⟨fun _ shares => shares.elim, ?_⟩, fun answer _ => ?_⟩
    · rintro source who same
      cases same
      exact recording.named kind audience List.mem_cons_self
    · cases answer with
      | error reason => exact fun _ => nofun
      | ok _ => exact ih recording.next

theorem discloses_applyDiscovery {announce : AnnounceSet} {dryRun : Bool}
    {reads : Syncer.Reads} (heralded : Heralded discovery seen) :
    Discloses (fun _ _ => True)
      (syncer.applyDiscovery announce dryRun discovery reads) seen := by
  unfold Syncer.applyDiscovery
  split
  · trivial
  · refine Prog.Along.proceed (fun _ _ => trivial) fun ends _ => ?_
    refine Prog.Along.proceed (fun _ _ => trivial) fun origins _ => ?_
    refine discloses_call (calm_heralded discovery) trivial heralded
      fun now seen heralded => ?_
    have recording : Discloses
        (fun result later => ∀ done, result = .ok done →
          ReadyToShare dryRun discovery.items later)
        (if dryRun then .done (.ok ())
          else syncer.recordAudiences discovery.audiences) seen := by
      split
      · rename_i dry
        exact fun _ _ => .inl dry
      · refine (discloses_recordAudiences discovery.audiences
          ⟨heralded.distinct, fun item member =>
            .inr (heralded.told item member), ?_⟩).mono
          fun _ _ recorded done same => .inr (recorded done same)
        intro kind audience listed fileId some_
        obtain ⟨item, member, named⟩ :=
          heralded.named kind audience listed fileId some_
        obtain ⟨own, found, told⟩ := heralded.told item member
        have source : item.source = kind := congrArg Prod.fst named
        rw [source] at found
        have entry : (kind, own) = (kind, audience) :=
          List.inj_on_of_nodup_map heralded.distinct found listed rfl
        rw [← named, told, (Prod.mk.inj entry).2]
    refine Prog.Along.bind recording fun result seen ready => ?_
    refine Prog.Along.proceed (fun _ _ => trivial) fun done same => ?_
    refine Prog.Along.proceed (fun _ _ => trivial) fun torrents _ => ?_
    refine Prog.Along.proceed (fun _ _ => trivial) fun rows _ => ?_
    exact discloses_settle _ discovery _ (ready done same)

theorem discloses_run (dryRun : Bool) :
    Discloses (fun _ _ => True) (syncer.run dryRun) seen := by
  have nothing : Calm fun _ => True := fun _ _ _ _ _ => trivial
  have reconciling : ∀ dryRun seen,
      Discloses (fun _ _ => True) (syncer.reconcile dryRun) seen := by
    intro dryRun seen
    have tracking : (if dryRun then .done (.ok ())
        else syncer.trackCapInForce).Only Call.IsStill := by
      split
      · trivial
      · exact still_of_quiet syncer.trackCapInForce_quiet
    refine Prog.Along.bind (discloses_still nothing tracking trivial)
      fun _ seen _ => ?_
    refine Prog.Along.proceed (fun _ _ => trivial) fun _ _ => ?_
    refine discloses_call nothing trivial trivial fun ready seen _ => ?_
    refine Prog.Along.proceed (fun _ _ => trivial) fun _ _ => ?_
    refine discloses_call nothing trivial trivial fun answer seen _ => ?_
    refine Prog.Along.proceed (fun _ _ => trivial) fun announce _ => ?_
    refine Prog.Along.bind (discloses_discover _ syncer.distinct)
      fun discovery seen heralded => ?_
    exact Prog.Along.bind
      (discloses_still (calm_heralded discovery) readAll_still heralded)
      fun reads seen heralded => discloses_applyDiscovery heralded
  unfold Syncer.run
  split
  · exact reconciling true seen
  · refine discloses_call nothing trivial trivial fun begun seen _ => ?_
    refine Prog.Along.proceed (fun _ _ => trivial) fun runId _ => ?_
    refine Prog.Along.bind (reconciling false seen) fun outcome seen _ => ?_
    exact discloses_still nothing ⟨trivial, fun _ => trivial⟩ trivial

theorem discloses_job (job : Job) :
    Discloses (fun _ _ => True) (syncer.job job) seen := by
  cases job with
  | run dryRun =>
    exact Prog.Along.bind (discloses_run dryRun) fun _ _ _ => trivial
  | unshare key | rebuild key =>
    exact discloses_still (fun _ _ _ _ _ => trivial)
      (still_of_withdraws (syncer.job_withdraws (by simp))) trivial

/-- Whatever the syncers do, they share what they are entitled to. -/
theorem discloses_sequence (work : List (Syncer × List (Job × Nat))) :
    Discloses (fun _ _ => True) (sequence work) seen := by
  have nothing : Calm fun _ => True := fun _ _ _ _ _ => trivial
  refine Prog.Along.fold (fun _ _ _ => True) ?_ _ _ _ trivial
  intro entry entries _ seen _
  refine discloses_call nothing trivial trivial fun _ seen _ => ?_
  refine Prog.Along.fold (fun _ _ _ => True) ?_ _ _ _ trivial
  intro job jobs _ seen _
  have abandoned : Discloses (fun _ _ => True)
      ((entry.1.job job.1).cut job.2) seen := (discloses_job job.1).cut job.2
  exact Prog.Along.bind abandoned fun _ _ _ => trivial

end Pass

section Steps

variable {key : ItemKey} {world after : World} {request : Call}
variable {answer : Answer request}

theorem performSeeder_audience {request : Seeder.Call}
    {answer : Seeder.Answer request}
    (performed : performSeeder world request answer = some after) :
    after.audience = world.audience := by
  cases request with
  | add request =>
    rcases writing_eq_some performed with rfl | rfl
    · rfl
    · unfold World.add
      split <;> rfl
  | addTrackers =>
    cases performed
    rfl
  | _ =>
    refine (performSeeder_quiet ?_ performed).2
    trivial

variable {kind : MediaSource}

theorem world_of_discovered (thread : Nat) {answer : Except String SourceScan}
    (performed : perform thread world (.discover kind) answer = some after) :
    after = world := by
  unfold perform discovering at performed
  cases answer with
  | error reason => exact (Option.some.inj performed).symm
  | ok scan =>
    dsimp only at performed
    split at performed
    · exact (Option.some.inj performed).symm
    · cases performed

theorem audience_of_performed (thread : Nat) (other : ¬ request.Pledges)
    (performed : perform thread world request answer = some after) :
    after.audience = world.audience := by
  cases request with
  | discover | replaceAudience => exact absurd trivial other
  | trackCap | rememberLimits | remove | upsert | update | setItemOrigin =>
    rcases writing_eq_some performed with rfl | rfl <;> rfl
  | limitsApplied | list | allItems | fileStamps | shareEnds | itemOrigins
  | get | seedingItems | audiences =>
    rw [reading_eq_some performed]
  | iterate items =>
    simp only [perform] at performed
    split at performed
    · cases performed
      rfl
    · cases performed
  | seeder key request => exact performSeeder_audience performed
  | _ =>
    cases performed
    rfl

theorem seeds_of_performed (thread : Nat) (silent : ¬ request.Shares key)
    (performed : perform thread world request answer = some after)
    (seeds : after.Seeds key) : world.Seeds key := by
  obtain ⟨row, found, seeding⟩ := seeds
  by_cases writes : request.Writes
  · cases request with
    | upsert item now =>
      rcases writing_eq_some performed with rfl | rfl
      · exact ⟨row, found, seeding⟩
      · rw [show (world.upsert item now).items.row? key = _ from
          ItemTable.row?_upsert ..] at found
        split at found
        · rename_i same
          cases found
          refine absurd ⟨same.symm, ?_⟩ silent
          cases before : world.items.row? key with
          | none =>
            rw [before] at seeding
            exact seeding
          | some old =>
            rw [before] at seeding
            exact seeding
        · exact ⟨row, found, seeding⟩
    | update other change =>
      rcases writing_eq_some performed with rfl | rfl
      · exact ⟨row, found, seeding⟩
      · rw [show (world.updateItem other change).items.row? key = _ from
          ItemTable.row?_update ..] at found
        split at found
        · rename_i same
          subst same
          obtain ⟨before, held, rfl⟩ := Option.map_eq_some_iff.mp found
          refine ⟨before, held, ?_⟩
          cases change with
          | setState state lastError => exact absurd ⟨rfl, seeding⟩ silent
          | setSeeding => exact absurd rfl silent
          | resetForRebuild => cases seeding
          | _ => exact seeding
        · exact ⟨row, found, seeding⟩
    | _ => exact writes.elim
  · rw [perform_items thread writes performed] at found
    exact ⟨row, found, seeding⟩

/-- A recorded audience is who the items of its source are for. -/
theorem friends_of_replaced (thread : Nat) {audience : SourceAudience}
    (performed : perform thread world (.replaceAudience kind audience)
      (.ok ()) = some after) {friend : String} :
    friend ∈ after.audience.friends key ↔
      if key.1 = kind then friend ∈ audience.friends key.2
      else friend ∈ world.audience.friends key := by
  cases performed
  exact AudienceTable.mem_friends_replaceAudience

end Steps

section Runs

variable {condition : Condition Nat World Call Answer} {key : ItemKey}
variable {thread : Nat} {work : List (Syncer × List (Job × Nat))}
variable {visitors : Nat → Visitor} {world : World} {events : List Event}
variable {event : Event} {pool final : Pool}

theorem entitled_of_run
    (run : Process.Run perform condition
      (startChanging work visitors world) (events ++ [event]) final)
    (own : event.thread = 0) :
    Entitled (historyOf 0 events) event.request := by
  have along : Discloses (fun _ _ => True)
      ((startChanging work visitors world).threads 0) [] :=
    Prog.Along.bind (discloses_sequence work) fun _ _ _ => trivial
  exact run.allowed_of_along own
    (fun _ _ _ _ _ performed => reportable_of_performed 0 performed) along

theorem visits_of_run
    (run : Process.Run perform condition
      (startChanging work visitors world) (events ++ [event]) final)
    (other : event.thread ≠ 0) : event.request.IsVisit := by
  have program : (startChanging work visitors world).threads event.thread =
      (visitors event.thread).program := if_neg other
  have along : ((startChanging work visitors world).threads
      event.thread).Along (fun _ _ => True) (fun _ request => request.IsVisit)
        (fun _ _ => True) [] := by
    rw [program]
    exact Prog.Along.of_only (fun _ _ visit _ => ⟨visit, fun _ _ => trivial⟩)
      (visitors event.thread).visits trivial
  exact run.allowed_of_along rfl (fun _ _ _ _ _ _ => trivial) along

variable {request : Call} {after : World} {seen : History Answer}
  {past : List Event} {answer : Answer request}

theorem not_pledges_of_visit (key : ItemKey) (visit : request.IsVisit) :
    ¬ request.Pledges ∧ ¬ request.Shares key := by
  cases request with
  | seedingItems | audiences | edit => exact ⟨id, id⟩
  | _ => exact visit.elim

/-- Who an item is for is recorded as it was last reported; or it is not, and
the item is not in the feed. -/
structure Withheld (key : ItemKey) (world : World) (seen : History Answer) :
    Prop where
  recorded : ∀ audience,
    lastPledge key seen = some ⟨audience, .recorded⟩ →
      ∀ friend, friend ∈ world.audience.friends key ↔
        friend ∈ audience.friends key.2
  overtaken : ∀ audience,
    lastPledge key seen = some ⟨audience, .overtaken⟩ →
      audience.friends key.2 ≠ [] → ¬ world.Seeds key

variable {kind : MediaSource} {listed : List SharedItem} {rows : AudienceTable}

theorem Withheld.discovered {answer : Except String SourceScan}
    (withheld : Withheld key world seen)
    (audience : after.audience = world.audience)
    (kept : after.Seeds key → world.Seeds key) :
    Withheld key after (seen ++ [⟨.discover kind, answer⟩]) := by
  have same (pledge : Pledge) (settled : pledge.phase ≠ .told)
      (found : lastPledge key (seen ++ [⟨.discover kind, answer⟩]) =
        some pledge) : lastPledge key seen = some pledge := by
    rw [lastPledge_append] at found
    cases answer with
    | error reason => exact found
    | ok scan =>
      rw [advancePledge] at found
      split at found
      · cases found
        exact absurd rfl settled
      · exact found
  refine ⟨fun promised found friend => ?_, fun promised found some_ seeds => ?_⟩
  · rw [audience]
    exact withheld.recorded promised (same _ nofun found) friend
  · exact withheld.overtaken promised (same _ nofun found) some_ (kept seeds)

theorem Withheld.replaced {audience : SourceAudience}
    (withheld : Withheld key world (historyOf 0 past))
    (entitled : Entitled (historyOf 0 past) (.replaceAudience kind audience))
    (retained : Retained key ⟨world, past⟩
      ⟨0, .replaceAudience kind audience, .ok ()⟩)
    (performed : perform 0 world (.replaceAudience kind audience)
      (.ok ()) = some after) :
    Withheld key after
      (historyOf 0 past ++ [⟨.replaceAudience kind audience, .ok ()⟩]) := by
  have kept : after.Seeds key → world.Seeds key :=
    seeds_of_performed 0 id performed
  by_cases own : kind = key.1
  · subst own
    have recorded (found : Pledge) (now : lastPledge key (historyOf 0 past ++
        [⟨.replaceAudience key.1 audience, .ok ()⟩]) = some found) :
        ∃ before, lastPledge key (historyOf 0 past) = some before ∧
          before.record audience = found := by
      rw [lastPledge_append, advancePledge, if_pos rfl] at now
      exact Option.map_eq_some_iff.mp now
    refine ⟨fun promised now friend => ?_, fun promised now some_ seeds => ?_⟩
    · obtain ⟨before, -, same⟩ := recorded _ now
      rw [friends_of_replaced 0 performed, if_pos rfl]
      rw [Pledge.record] at same
      split at same
      · rename_i here
        cases same
        rw [here]
      · split at same
        · rename_i waiting
          rw [same] at waiting
          cases waiting
        · cases same
    · obtain ⟨before, found, same⟩ := recorded _ now
      rw [Pledge.record] at same
      split at same
      · cases same
      · split at same
        · rename_i waiting
          rw [same] at waiting
          cases waiting
        · rename_i waiting
          cases same
          cases phase : before.phase with
          | told => exact waiting phase
          | overtaken =>
            refine withheld.overtaken before.audience ?_ some_ (kept seeds)
            rw [found, ← phase]
          | recorded =>
            have dropped : audience.friends key.2 = [] := by
              by_contra names
              have told := entitled.records key.1 audience rfl key.2 names
              rw [found] at told
              cases told
              cases phase
            exact retained (before.audience.friends key.2) audience
              ⟨before, found, waiting, rfl, some_⟩ rfl dropped (kept seeds)
  · have same : lastPledge key (historyOf 0 past ++
        [⟨.replaceAudience kind audience, .ok ()⟩]) =
          lastPledge key (historyOf 0 past) := by
      rw [lastPledge_append, advancePledge, if_neg own]
    refine ⟨fun promised now friend => ?_, fun promised now some_ seeds => ?_⟩
    · rw [friends_of_replaced 0 performed, if_neg (Ne.symm own)]
      exact withheld.recorded promised (same ▸ now) friend
    · exact withheld.overtaken promised (same ▸ now) some_ (kept seeds)

theorem Withheld.unpledged (withheld : Withheld key world seen)
    (other : ¬ request.Pledges) (entitled : Entitled seen request)
    (performed : perform 0 world request answer = some after) :
    Withheld key after (seen ++ [⟨request, answer⟩]) := by
  have same := lastPledge_unchanged other key seen answer
  refine ⟨fun promised now friend => ?_, fun promised now some_ seeds => ?_⟩
  · rw [audience_of_performed 0 other performed]
    exact withheld.recorded promised (same ▸ now) friend
  · rw [same] at now
    refine withheld.overtaken promised now some_
      (seeds_of_performed 0 (fun shares => ?_) performed seeds)
    obtain ⟨audience, recorded⟩ := entitled.shares key shares
    rw [now] at recorded
    cases recorded

/-- What a run keeps, where no promised item loses its audience while it is in
the feed. -/
theorem withheld_of_run
    (retains : ∀ moment event, condition moment event →
      Retained key moment event)
    (run : Process.Run perform condition
      (startChanging work visitors world) events final) :
    Withheld key final.world (historyOf 0 events) := by
  induction events using List.reverseRecOn generalizing final with
  | nil =>
    constructor
    · nofun
    · nofun
  | append_singleton events event ih =>
    obtain ⟨pool, next, after, earlier, -, meets, performed, rfl⟩ := run.last
    have withheld := ih earlier
    obtain ⟨caller, request, answer⟩ := event
    rw [historyOf_append, Pool.put_world]
    by_cases own : caller = 0
    · subst own
      have entitled := entitled_of_run run rfl
      rw [if_pos rfl]
      by_cases pledges : request.Pledges
      · cases request with
        | discover kind =>
          obtain rfl := world_of_discovered 0 performed
          exact withheld.discovered rfl id
        | replaceAudience kind audience =>
          cases answer with
          | error reason =>
            cases performed
            refine ⟨fun promised now => ?_, fun promised now => ?_⟩
            · exact withheld.recorded promised
                (by rwa [lastPledge_append] at now)
            · exact withheld.overtaken promised
                (by rwa [lastPledge_append] at now)
          | ok _ =>
            exact withheld.replaced entitled (retains _ _ meets)
              performed
        | _ => exact pledges.elim
      · exact withheld.unpledged pledges entitled performed
    · have visit := visits_of_run run own
      obtain ⟨silent, shareless⟩ :=
        not_pledges_of_visit key visit
      rw [if_neg own]
      refine ⟨fun promised now friend => ?_, fun promised now some_ seeds =>
        withheld.overtaken promised now some_
          (seeds_of_performed caller shareless performed seeds)⟩
      rw [audience_of_performed caller silent performed]
      exact withheld.recorded promised now friend

/-- Who the item is for is what it was last reported with, if that was ever
recorded. -/
def Matched (key : ItemKey) (world : World) (seen : History Answer) : Prop :=
  ∀ pledge, lastPledge key seen = some pledge → pledge.phase ≠ .told →
    pledge.audience.friends key.2 ≠ [] →
      ∀ friend, friend ∈ world.audience.friends key ↔
        friend ∈ pledge.audience.friends key.2

theorem Withheld.matched (withheld : Withheld key world seen)
    (seeds : world.Seeds key) :
    Matched key world seen := by
  intro pledge found settled some_
  obtain ⟨audience, phase⟩ := pledge
  cases phase with
  | told => exact absurd rfl settled
  | recorded => exact withheld.recorded audience found
  | overtaken => exact absurd seeds (withheld.overtaken audience found some_)

/-- One call of somebody else while `thread` is half way. -/
theorem friends_of_step {past : List Event} {request : Call}
    {answer : Answer request} {after : World}
    (halfway : (historyOf thread past).length = 1)
    (steady : Steady key thread ⟨world, past⟩ ⟨0, request, answer⟩)
    (performed : perform 0 world request answer = some after)
    (friend : String) :
    friend ∈ after.audience.friends key ↔
      friend ∈ world.audience.friends key := by
  by_cases pledges : request.Pledges
  · cases request with
    | discover kind => rw [world_of_discovered 0 performed]
    | replaceAudience kind audience =>
      cases answer with
      | error reason =>
        cases performed
        rfl
      | ok _ =>
        rw [friends_of_replaced 0 performed]
        split
        · rename_i own
          subst own
          exact steady audience halfway rfl friend
        · rfl
    | _ => exact pledges.elim
  · rw [audience_of_performed 0 pledges performed]

theorem Matched.step (matched : Matched key world (historyOf 0 past))
    (withheld : Withheld key after (historyOf 0 past ++ [⟨request, answer⟩]))
    (same : ∀ friend, friend ∈ after.audience.friends key ↔
      friend ∈ world.audience.friends key) :
    Matched key after (historyOf 0 past ++ [⟨request, answer⟩]) := by
  intro pledge found settled some_ friend
  have unchanged (before : Pledge)
      (earlier : lastPledge key (historyOf 0 past) = some before)
      (phase : before.phase ≠ .told)
      (audience : before.audience = pledge.audience) :
      friend ∈ after.audience.friends key ↔
        friend ∈ pledge.audience.friends key.2 := by
    rw [same, ← audience]
    exact matched before earlier phase (audience ▸ some_) friend
  by_cases pledges : request.Pledges
  · cases request with
    | discover kind =>
      rw [lastPledge_append] at found
      cases answer with
      | error reason => exact unchanged pledge found settled rfl
      | ok scan =>
        rw [advancePledge] at found
        split at found
        · cases found
          exact absurd rfl settled
        · exact unchanged pledge found settled rfl
    | replaceAudience kind audience =>
      have whole := found
      rw [lastPledge_append] at found
      cases answer with
      | error reason => exact unchanged pledge found settled rfl
      | ok _ =>
        rw [advancePledge] at found
        split at found
        · obtain ⟨before, earlier, rfl⟩ := Option.map_eq_some_iff.mp found
          by_cases here : audience = before.audience
          · have recorded : before.record audience =
                ⟨before.audience, .recorded⟩ := by
              rw [Pledge.record, if_pos here]
            rw [recorded] at whole ⊢
            exact withheld.recorded before.audience whole friend
          · by_cases waiting : before.phase = .told
            · have kept : before.record audience = before := by
                rw [Pledge.record, if_neg here, if_pos waiting]
              rw [kept] at settled
              exact absurd waiting settled
            · refine unchanged before earlier waiting ?_
              rw [Pledge.record, if_neg here, if_neg waiting]
        · exact unchanged pledge found settled rfl
    | _ => exact pledges.elim
  · rw [lastPledge_unchanged pledges] at found
    exact unchanged pledge found settled rfl

/-- Nothing moves under a reader who is half way. -/
theorem between_of_run {earlier later : List Event}
    (retains : ∀ moment event, condition moment event →
      Retained key moment event)
    (steadies : ∀ moment event, condition moment event →
      Steady key thread moment event)
    (first : Process.Run perform condition
      (startChanging work visitors world) earlier pool)
    (whole : Process.Run perform condition
      (startChanging work visitors world) (earlier ++ later) final)
    (halfway : (historyOf thread earlier).length = 1)
    (silent : ∀ event ∈ later, event.thread ≠ thread) :
    (∀ friend, friend ∈ final.world.audience.friends key ↔
      friend ∈ pool.world.audience.friends key) ∧
      (Matched key pool.world (historyOf 0 earlier) →
        Matched key final.world (historyOf 0 (earlier ++ later))) := by
  induction later using List.reverseRecOn generalizing final with
  | nil =>
    rw [List.append_nil] at whole ⊢
    rw [whole.unique first]
    exact ⟨fun _ => Iff.rfl, id⟩
  | append_singleton later event ih =>
    rw [← List.append_assoc] at whole ⊢
    have withheld := withheld_of_run retains whole
    obtain ⟨between, next, after, run, -, meets, performed, rfl⟩ :=
      whole.last
    obtain ⟨same, matched⟩ := ih run fun other member =>
      silent other (List.mem_append_left _ member)
    have still : (historyOf thread (earlier ++ later)).length = 1 := by
      have quiet : historyOf thread later = [] := by
        rw [historyOf, List.map_eq_nil_iff, List.filter_eq_nil_iff]
        intro other member own
        exact silent other (List.mem_append_left _ member)
          (of_decide_eq_true own)
      have split : historyOf thread (earlier ++ later) =
          historyOf thread earlier ++ historyOf thread later := by
        simp [historyOf]
      rw [split, quiet, List.append_nil, halfway]
    rw [Pool.put_world] at withheld ⊢
    obtain ⟨caller, request, answer⟩ := event
    rw [historyOf_append] at withheld ⊢
    by_cases own : caller = 0
    · subst own
      have step := friends_of_step still (steadies _ _ meets) performed
      rw [if_pos rfl] at withheld ⊢
      exact ⟨fun friend => (step friend).trans (same friend),
        fun begun => (matched begun).step withheld step⟩
    · obtain ⟨unpledged, -⟩ :=
        not_pledges_of_visit key (visits_of_run whole own)
      have kept := audience_of_performed caller unpledged performed
      rw [if_neg own, kept]
      refine ⟨same, fun begun => ?_⟩
      intro pledge found settled some_ friend
      rw [kept]
      exact matched begun pledge found settled some_ friend

/-- What a feed read returns is what it was answered, in either order. -/
def ReadSo (scope : PeerScope) (limits : PeerLimits)
    (items : List SharedItem) (seen : History Answer) : Prop :=
  ∃ rows listed, items = admitted limits rows listed ∧
    (seen = [⟨.audiences, .ok rows⟩, ⟨.seedingItems scope, .ok listed⟩] ∨
      seen = [⟨.seedingItems scope, .ok listed⟩, ⟨.audiences, .ok rows⟩])

theorem reads_so (itemsFirst : Bool) (scope : PeerScope)
    (limits : PeerLimits) :
    (Visitor.reads itemsFirst scope limits).program.Along (fun _ _ => True)
      (fun _ _ => True)
      (fun outcome seen => ∀ items, outcome = .fed (.ok items) →
        ReadSo scope limits items seen) [] := by
  unfold Visitor.program seedingItemsFor
  cases itemsFirst with
  | true =>
    refine ⟨trivial, fun listed _ => ?_⟩
    cases listed with
    | error reason => exact fun _ => nofun
    | ok listed =>
      refine ⟨trivial, fun rows _ => ?_⟩
      cases rows with
      | error reason => exact fun _ => nofun
      | ok rows =>
        intro items same
        cases same
        exact ⟨rows, listed, rfl, .inr rfl⟩
  | false =>
    refine ⟨trivial, fun rows _ => ?_⟩
    cases rows with
    | error reason => exact fun _ => nofun
    | ok rows =>
      refine ⟨trivial, fun listed _ => ?_⟩
      cases listed with
      | error reason => exact fun _ => nofun
      | ok listed =>
        intro items same
        cases same
        exact ⟨rows, listed, rfl, .inl rfl⟩

/-- A reader the recorded friends do not include is given nothing. -/
theorem not_admitted {limits : PeerLimits} {friends : List String}
    (recorded : ∀ friend, friend ∈ rows.friends key ↔ friend ∈ friends)
    (some_ : friends ≠ [])
    (outsider : ∀ friend, limits.friend = some friend → friend ∉ friends) :
    ∀ item ∈ admitted limits rows listed, item.key ≠ key := by
  rintro item member rfl
  have admits := (List.mem_filter.mp member).2
  obtain ⟨one, among⟩ := List.exists_mem_of_ne_nil _ some_
  have named : rows.friends item.key ≠ [] :=
    List.ne_nil_of_mem ((recorded one).mpr among)
  rw [AudienceTable.audiences, if_neg named, PeerLimits.admits,
    Bool.and_eq_true, Bool.and_eq_true, PeerLimits.inAudience,
    Option.all_some, Option.any_eq_true] at admits
  obtain ⟨⟨⟨friend, reader, contained⟩, -⟩, -⟩ := admits
  exact outsider friend reader
    ((recorded friend).mp (List.contains_iff_mem.mp contained))

theorem seeds_of_listed {scope : PeerScope} (thread : Nat)
    (performed : perform thread world (.seedingItems scope) (.ok listed) =
      some after) {item : SharedItem} (member : item ∈ listed) :
    after = world ∧ world.Seeds item.key := by
  have read : reading (ε := StoreError) world
      (world.items.seedingItems scope) (.ok listed) = some after := performed
  refine ⟨reading_eq_some read, ?_⟩
  rw [value_of_reading read] at member
  obtain ⟨stored, feed, -⟩ := ItemTable.mem_seedingItems.mp member
  obtain ⟨row, found, rfl⟩ := ItemTable.row?_of_mem_allItems stored
  refine ⟨row, found, ?_⟩
  simp only [ItemTable.inFeed, Bool.and_eq_true, decide_eq_true_eq] at feed
  exact feed.1

theorem rows_of_audiences (thread : Nat)
    (performed : perform thread world .audiences (.ok rows) = some after) :
    rows = world.audience ∧ after = world := by
  have read : reading (ε := StoreError) world world.audience (.ok rows) =
      some after := performed
  exact ⟨value_of_reading read, reading_eq_some read⟩

/-- The only call a thread made so far, among those of the others. -/
theorem only_call {first : (request : Call) × Answer request}
    (run : Process.Run perform condition
      (startChanging work visitors world) events final)
    (history : historyOf thread events = [first]) :
    ∃ before after earlier later,
      events = (before ++ [⟨thread, first.1, first.2⟩]) ++ after ∧
      Process.Run perform condition (startChanging work visitors world)
        before earlier ∧
      Process.Run perform condition (startChanging work visitors world)
        (before ++ [⟨thread, first.1, first.2⟩]) later ∧
      perform thread earlier.world first.1 first.2 = some later.world ∧
      (historyOf thread (before ++ [⟨thread, first.1, first.2⟩])).length =
        1 ∧ ∀ event ∈ after, event.thread ≠ thread := by
  obtain ⟨before, after, rfl, nothing, silent⟩ :=
    split_of_historyOf (show historyOf thread events = [] ++ [first] from
      history)
  rw [List.append_cons] at run
  obtain ⟨later, upto⟩ := run.of_append
  obtain ⟨earlier, next, left, ran, -, -, performed, rfl⟩ := upto.last
  refine ⟨before, after, earlier, _, List.append_cons .., ran, upto,
    performed, ?_, silent⟩
  rw [historyOf_append, if_pos rfl, nothing]
  rfl

end Runs

/-- In every run, under whatever settings, in which no promised item loses its
audience while it is in the feed, and nothing changes who the item is for
between the two queries of a feed read: the read gives the item to none but the
friends it was last reported for, once that is recorded. -/
theorem promised_items_withheld (key : ItemKey) (thread : Nat)
    (work : List (Syncer × List (Job × Nat))) (visitors : Nat → Visitor)
    (world : World) (events : List Event) (event : Event) (final : Pool)
    (run : Process.Run perform
      (fun moment event => Retained key moment event ∧
        Steady key thread moment event)
      (startChanging work visitors world) (events ++ [event]) final)
    (other : thread ≠ 0) (last : event.thread = thread) (itemsFirst : Bool)
    (scope : PeerScope) (limits : PeerLimits)
    (reader : visitors thread = .reads itemsFirst scope limits)
    (items : List SharedItem)
    (fed : final.threads thread = .done (.fed (.ok items)))
    (friends : List String) (promised : Promised key friends events)
    (outsider : ∀ friend, limits.friend = some friend → friend ∉ friends) :
    ∀ item ∈ items, item.key ≠ key := by
  have begun : ((startChanging work visitors world).threads thread).Along
      (fun _ _ => True) (fun _ _ => True)
      (fun outcome seen => ∀ items, outcome = .fed (.ok items) →
        ReadSo scope limits items seen) [] := by
    have program : (startChanging work visitors world).threads thread =
        (visitors thread).program := if_neg other
    rw [program, reader]
    exact reads_so itemsFirst scope limits
  have ended := run.along (fun _ _ _ _ _ _ => trivial) begun
  rw [fed] at ended
  obtain ⟨rows, listed, rfl, answered⟩ := ended items rfl
  obtain ⟨second, next, after, reached, -, -, performed, -⟩ := run.last
  obtain ⟨caller, request, answer⟩ := event
  obtain rfl : caller = thread := last
  rw [historyOf_append, if_pos rfl] at answered
  have retains : ∀ moment event, (Retained key moment event ∧
      Steady key caller moment event) → Retained key moment event :=
    fun _ _ meets => meets.1
  have steadies : ∀ moment event, (Retained key moment event ∧
      Steady key caller moment event) → Steady key caller moment event :=
    fun _ _ meets => meets.2
  obtain ⟨pledge, found, settled, rfl, some_⟩ := promised
  intro item member named
  have among := List.mem_of_mem_filter member
  rcases answered with answered | answered
  · have split : historyOf caller events ++ [⟨request, answer⟩] =
        [⟨.audiences, .ok rows⟩] ++ [⟨.seedingItems scope, .ok listed⟩] :=
      answered
    obtain ⟨history, same⟩ := List.append_inj' split rfl
    cases List.singleton_inj.mp same
    obtain ⟨before, others, sooner, asked, rfl, -, upto, read, halfway,
      silent⟩ :=
      only_call reached history
    obtain ⟨rfl, here⟩ := rows_of_audiences caller read
    obtain ⟨kept, -⟩ :=
      between_of_run retains steadies upto reached halfway silent
    obtain ⟨-, seeds⟩ := seeds_of_listed caller performed among
    rw [named] at seeds
    have matched := (withheld_of_run retains reached).matched seeds
    refine not_admitted (fun friend => ?_) some_ outsider item member named
    rw [← here, ← kept friend]
    exact matched pledge found settled some_ friend
  · have split : historyOf caller events ++ [⟨request, answer⟩] =
        [⟨.seedingItems scope, .ok listed⟩] ++ [⟨.audiences, .ok rows⟩] :=
      answered
    obtain ⟨history, same⟩ := List.append_inj' split rfl
    cases List.singleton_inj.mp same
    obtain ⟨rfl, -⟩ := rows_of_audiences caller performed
    obtain ⟨before, others, sooner, asked, rfl, -, upto, read, halfway,
      silent⟩ :=
      only_call reached history
    obtain ⟨here, seeds⟩ := seeds_of_listed caller read among
    rw [named, ← here] at seeds
    have begun := (withheld_of_run retains upto).matched seeds
    obtain ⟨-, matched⟩ :=
      between_of_run retains steadies upto reached halfway silent
    exact not_admitted (matched begun pledge found settled some_) some_
      outsider item member named

/-- The small library with the film tagged for Sam only. -/
def samsFilm : Environment :=
  .small (fun _ => none) ⟨[film 1], true, [(1, ["sam"])]⟩
    ⟨by simp [film], by simp, by simp [film]⟩

/-- Everyone who visits reads the whole feed under no friend's name. -/
def strangers : Nat → Visitor := fun _ =>
  .reads false .all ⟨none, none, none⟩

def onePass : List (Syncer × List (Job × Nat)) :=
  [(smallSyncer, [(.run false, 100)])]

def losingPasses : List (Syncer × List (Job × Nat)) :=
  [(smallSyncer, [(.run false, 100), (.run false, 100)])]

/-- The film is shared in 28 calls; then it loses its tag. -/
def losingTag : Responder World Call Answer :=
  switched samsFilm untaggedFilm 28

/-- What the syncers have left after a number of calls. -/
def pausedAt (work : List (Syncer × List (Job × Nat))) (calls : Nat) :
    World :=
  (((sequence work).cut calls).alone losingTag 0 (.fresh [])).world

/-- Their calls so far. -/
def callsUntil (work : List (Syncer × List (Job × Nat))) (calls : Nat) :
    List Event :=
  ((sequence work).cut calls).told losingTag 0 0 (.fresh [])

/-- A visitor asks who the items are for. -/
def asksAudiences (world : World) : Event :=
  ⟨1, .audiences, .ok world.audience⟩

/-- A visitor asks for the items. -/
def asksItems (world : World) : Event :=
  ⟨1, .seedingItems .all, .ok (world.items.seedingItems .all)⟩

/-- A stranger's read that ends with this event is given Sam's film. -/
def GivenOut (work : List (Syncer × List (Job × Nat))) (events : List Event)
    (event : Event) : Prop :=
  ∃ final items, Process.Run perform .always
      (startChanging work strangers (.fresh [])) (events ++ [event]) final ∧
    event.thread = 1 ∧ final.threads 1 = .done (.fed (.ok items)) ∧
      Promised (film 1).key ["sam"] events ∧
        ∃ item ∈ items, item.key = (film 1).key

theorem givenOut_of_replay {work : List (Syncer × List (Job × Nat))}
    {events : List Event} (own : event.thread = 1)
    (replayed : ((Process.replay perform (fun _ _ => true) []
      (startChanging work strangers (.fresh [])) (events ++ [event])).bind
        (fedTo 1)).map (·.map (·.key)) = some [(film 1).key])
    (pledged : ∃ phase, lastPledge (film 1).key (historyOf 0 events) =
      some ⟨[(1, ["sam"])], phase⟩ ∧ phase ≠ .told) :
    GivenOut work events event := by
  obtain ⟨items, fed, keys⟩ := Option.map_eq_some_iff.mp replayed
  obtain ⟨final, reached, fed⟩ := Option.bind_eq_some_iff.mp fed
  obtain ⟨phase, found, settled⟩ := pledged
  have run : Process.Run perform .always
      (startChanging work strangers (.fresh [])) (events ++ [event]) final :=
    Process.Run.of_replay (fun _ _ _ => trivial) reached
  refine ⟨final, items, run, own, threads_of_fedTo fed,
    ⟨_, found, settled, rfl, by decide⟩, ?_⟩
  have member : (film 1).key ∈ items.map (·.key) := by
    rw [keys]
    exact List.mem_cons_self
  exact List.mem_map.mp member

/-- A stranger is given Sam's film once it has lost its tag and is not
withdrawn yet, and where they asked who the items are for before that was
recorded. -/
theorem sams_film_given_out :
    GivenOut losingPasses
        (callsUntil losingPasses 42 ++
          [asksAudiences (pausedAt losingPasses 42)])
        (asksItems (pausedAt losingPasses 42)) ∧
      GivenOut onePass (asksAudiences (.fresh []) :: callsUntil onePass 28)
        (asksItems (pausedAt onePass 28)) := by
  constructor
  · refine givenOut_of_replay rfl (by decide +kernel) ⟨.overtaken, ?_, by
      decide⟩
    decide +kernel
  · refine givenOut_of_replay rfl (by decide +kernel) ⟨.recorded, ?_, by
      decide⟩
    decide +kernel

/-- An audience is recorded while nobody reads, and none was recorded for the
film before. -/
def recordsFirst (moment : Moment) (event : Event) : Bool :=
  match event.request with
  | .replaceAudience .. =>
    (historyOf 1 moment.past).isEmpty &&
      (lastPledge (film 1).key (historyOf 0 moment.past)).all fun pledge =>
        pledge.phase = .told
  | _ => true

theorem withheld_of_recordsFirst {moment : Moment}
    (first : recordsFirst moment event = true) :
    Retained (film 1).key moment event ∧
      Steady (film 1).key 1 moment event := by
  constructor
  · rintro friends audience ⟨pledge, found, settled, -⟩ rfl _ _
    have told := (Bool.and_eq_true_iff.mp first).2
    rw [found, Option.all_some, decide_eq_true_eq] at told
    exact settled told
  · rintro audience halfway rfl
    have nothing := (Bool.and_eq_true_iff.mp first).1
    rw [List.isEmpty_iff.mp nothing] at halfway
    cases halfway

/-- While it is shared for Sam, a stranger's read does not give it. -/
theorem sams_film_withheld :
    ∃ final items, Process.Run perform
        (fun moment event => Retained (film 1).key moment event ∧
          Steady (film 1).key 1 moment event)
        (startChanging onePass strangers (.fresh []))
        ((callsUntil onePass 28 ++ [asksAudiences (pausedAt onePass 28)]) ++
          [asksItems (pausedAt onePass 28)]) final ∧
      final.threads 1 = .done (.fed (.ok items)) ∧
        final.world.Seeds (film 1).key ∧
          ∀ item ∈ items, item.key ≠ (film 1).key := by
  have replayed : (Process.replay perform recordsFirst []
      (startChanging onePass strangers (.fresh []))
      ((callsUntil onePass 28 ++ [asksAudiences (pausedAt onePass 28)]) ++
        [asksItems (pausedAt onePass 28)])).map (fun pool =>
          ((fedTo 1 pool).map (·.map (·.key)),
            (pool.world.items.row? (film 1).key).map (·.state))) =
      some (some [], some .seeding) := by
    decide +kernel
  obtain ⟨final, run, seen⟩ := Process.Run.exists_of_replay
    (fun _ _ => withheld_of_recordsFirst) replayed
  obtain ⟨given, state⟩ := Prod.mk.inj seen
  obtain ⟨items, fed, -⟩ := Option.map_eq_some_iff.mp given
  obtain ⟨row, found, seeding⟩ := Option.map_eq_some_iff.mp state
  have read := threads_of_fedTo fed
  have pledged : lastPledge (film 1).key (historyOf 0
      (callsUntil onePass 28 ++ [asksAudiences (pausedAt onePass 28)])) =
        some ⟨[(1, ["sam"])], .recorded⟩ := by
    decide +kernel
  exact ⟨final, items, run, read, ⟨row, found, seeding⟩,
    promised_items_withheld (film 1).key 1 onePass strangers (.fresh []) _ _
      final run (by decide) rfl false .all ⟨none, none, none⟩ rfl items read
      ["sam"] ⟨_, pledged, by decide, rfl, by decide⟩ nofun⟩

end Sync

end Sharerr
