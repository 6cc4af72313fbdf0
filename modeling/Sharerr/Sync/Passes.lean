import Sharerr.Process.Safety
import Sharerr.Sync.Told

/-!
# Passes as a whole

`Covered` is what a rule has to show: that it is kept by the calls all passes
make, and by the three programs of a pass that make the others.  Whatever is
covered holds in every run of the syncer beside its visitors.
-/

namespace Sharerr

namespace Sync

open Process

/-- A statement about the past that the other threads leave alone. -/
def Unshaken (property : List Event → Prop) : Prop :=
  ∀ past event, property past → event.thread ≠ 0 →
    property (past ++ [event])

variable {property : List Event → Prop}
  {protocol : Protocol Nat World Call Answer}

theorem Unshaken.stable (unshaken : Unshaken property) :
    protocol.Stable 0 fun moment => property moment.past := by
  rintro before after holds ⟨other, different, -, -, request, answer,
    performed⟩
  rw [performed.past]
  exact unshaken _ _ holds different

theorem Lasting.unshaken (lasting : Lasting property) : Unshaken property :=
  fun past event holds other => lasting past event holds fun same =>
    absurd same other

theorem Unshaken.and {left right : List Event → Prop} (first : Unshaken left)
    (second : Unshaken right) :
    Unshaken fun past => left past ∧ right past :=
  fun past event holds other =>
    ⟨first past event holds.1 other, second past event holds.2 other⟩

/-- A torrent that is seeding is refreshed safely. -/
structure Confirms (syncer : Syncer)
    (protocol : Protocol Nat World Call Answer) : Prop where
  confirms : ∀ {pass readings items item known hash reported}
      {moment : Moment},
    Told pass readings items moment.past → item ∈ items →
      pass.settled (knownItems readings.known item.key) =
          some (known, hash, reported) →
        Safe protocol 0 (fun _ after => Told pass readings items after.past)
          (syncer.confirmLive pass item.key known hash reported) moment

/-- The invariant of `protocol` is kept by every part of a pass, at a moment at
which the pass works with what it last heard. -/
structure Covered (syncer : Syncer)
    (protocol : Protocol Nat World Call Answer) : Prop
    extends Confirms syncer protocol where
  guaranteed : ∀ {thread before request answer after},
    thread = 0 ∨ request.IsVisit →
      Performed protocol thread before request answer after →
        protocol.guarantee thread before after
  kept : ∀ {thread before request answer after},
    thread = 0 ∨ request.IsVisit → request.IsCommon ∨ request.IsOpening →
      Performed protocol thread before request answer after →
        protocol.invariant after
  watches : ∀ {pass readings items item report} {moment : Moment},
    Told pass readings items moment.past → item ∈ items →
      Safe protocol 0 (fun _ after => Told pass readings items after.past)
        (syncer.watch pass item (knownItems readings.known item.key)
          readings.stamps report) moment
  seeds : ∀ {pass readings items item media paths} {moment : Moment},
    Told pass readings items moment.past → item ∈ items →
      syncer.resolveFor item.source item.arrPath = .ok paths →
        Safe protocol 0 (fun _ after => Told pass readings items after.past)
          (syncer.seedItem pass { item with media }
            (knownItems readings.known item.key) paths) moment

/-- A statement kept by whatever `seed` may call on the way is kept by `seed`.
What was acquired may be known to be `fit` when it is handed over. -/
theorem safe_seed_keeping {seeder : Seeder} {paths : ResolvedPaths}
    {announce : AnnounceSet} {known : Option String} {media : Option MediaMeta}
    {friends : FriendTorrents} {key : ItemKey} {torrents : List TorrentSummary}
    {moment : Moment} (fit : Seeder.Acquired → Moment → Prop)
    (finds : Safe protocol 0 (fun _ after => property after.past)
      (Syncer.forItem key (Seeder.findExisting torrents paths.qbit)) moment)
    (adopts : ∀ infoHash (moment : Moment), property moment.past →
      Safe protocol 0 (fun _ after => property after.past)
        (Syncer.forItem key (seeder.adopt infoHash announce)) moment)
    (acquires : ∀ moment : Moment, property moment.past →
      Safe protocol 0 (fun acquired after => property after.past ∧
          ∀ result, acquired = .ok result → fit result after)
        (Syncer.forItem key
          (seeder.acquire paths announce known media friends)) moment)
    (handsOver : ∀ acquired (moment : Moment), property moment.past →
      fit acquired moment →
        Safe protocol 0 (fun _ after => property after.past)
          (Syncer.forItem key (seeder.handOver paths acquired)) moment) :
    Safe protocol 0 (fun _ after => property after.past)
      (Syncer.forItem key (seeder.seed paths announce torrents known media
        friends)) moment := by
  have adopting : ∀ (infoHash : String)
      (outcome : List String → SeedOutcome) (moment : Moment),
      property moment.past →
        Safe protocol 0 (fun _ after => property after.past)
          (Syncer.forItem key ((seeder.adopt infoHash announce).attempt
            fun upstream => .done (.ok (outcome upstream)))) moment := by
    intro infoHash outcome moment holds
    rw [Syncer.forItem, Prog.lift_attempt]
    apply (adopts infoHash moment holds).bind
    intro upstream moment holds
    exact Safe.proceed (fun _ _ => holds) fun _ _ => holds
  rw [Syncer.forItem, Seeder.seed, Prog.lift_bind]
  apply finds.bind
  intro existing moment holds
  cases existing with
  | some existing => exact adopting existing _ moment holds
  | none =>
    dsimp only
    split
    · exact adopting _ _ moment holds
    · rw [Prog.lift_attempt]
      apply (acquires moment holds).bind
      rintro acquired moment ⟨holds, vetted⟩
      apply Safe.proceed
      · exact fun _ _ => holds
      · intro acquired got
        exact handsOver acquired moment holds (vetted acquired got)

theorem lasting_true : Lasting fun _ => True :=
  fun _ _ _ _ => trivial

/-- The sources were asked last for no more than `items`. -/
def Asked (sources : List MediaSource) (items : List Discovered)
    (past : List Event) : Prop :=
  ∀ kind ∈ sources, ∃ answer, Heard past (.discover kind) answer ∧
    ∀ scan, answer = .ok scan → ∀ item ∈ scan.items, item ∈ items

theorem lasting_asked (sources : List MediaSource)
    (items : List Discovered) : Lasting (Asked sources items) := by
  intro past event asked other kind member
  obtain ⟨answer, heard, among⟩ := asked kind member
  exact ⟨answer, heard.lasting other trivial, among⟩

/-- A pass has read everything, and written to no item since. -/
structure Ready (syncer : Syncer) (pass : PassContext)
    (readings : Syncer.Readings) (discovery : Discovery)
    (past : List Event) : Prop where
  told : Told pass readings discovery.items past
  asked : Asked syncer.sources discovery.items past
  unwritten : ∃ rows, Unwritten past rows ∧
    readings.known = rows.map folded

/-- How the pass ends, once it has read everything: as `post` says. -/
def Settles (syncer : Syncer) (protocol : Protocol Nat World Call Answer)
    (dryRun : Bool) (post : Except String SyncReport → Moment → Prop) :
    Prop :=
  ∀ {pass readings discovery} {moment : Moment}, pass.dryRun = dryRun →
    Ready syncer pass readings discovery moment.past →
      protocol.invariant moment → Safe protocol 0 post
        (syncer.settle pass readings discovery
          (Syncer.discoveryReport discovery)) moment

namespace Covered

variable {syncer : Syncer} {protocol : Protocol Nat World Call Answer}
variable {property : List Event → Prop}

variable {α : Type}

variable {request : Call} {next : Answer request → Program α}
  {post : α → Moment → Prop} {discovery : Discovery}

theorem safe_call {moment : Moment} (covered : Covered syncer protocol)
    (lasting : Lasting property) (common : request.IsCommon)
    (holds : property moment.past)
    (rest : ∀ answer after, property after.past →
      Safe protocol 0 post (next answer) after) :
    Safe protocol 0 post (.call request next) moment := by
  apply Safe.call lasting.unshaken.stable holds
  intro before answer after held performed
  refine ⟨covered.kept (.inl rfl) (.inl common) performed,
    covered.guaranteed (.inl rfl) performed, rest answer after ?_⟩
  rw [performed.past]
  exact lasting _ _ held fun _ => common.plain.1

theorem safe_common {program : Program α} {moment : Moment}
    (covered : Covered syncer protocol) (lasting : Lasting property)
    (only : program.Only Call.IsCommon) (holds : property moment.past) :
    Safe protocol 0 (fun _ after => property after.past) program moment := by
  refine Safe.of_only lasting.unshaken.stable ?_ only holds
  intro before request answer after common held performed
  refine ⟨covered.kept (.inl rfl) (.inl common) performed,
    covered.guaranteed (.inl rfl) performed, ?_⟩
  rw [performed.past]
  exact lasting _ _ held fun _ => common.plain.1

variable {pass : PassContext} {readings : Syncer.Readings}
variable {items : List Discovered} {item : Discovered} {moment : Moment}

/-- Probing the file changes nothing but the media of the item. -/
theorem safe_withMedia (covered : Covered syncer protocol)
    (lasting : Lasting property) (holds : property moment.past) :
    Safe protocol 0
      (fun found after => property after.past ∧
        ∃ media, found = { item with media })
      (syncer.withMedia item) moment := by
  unfold Syncer.withMedia
  split
  · refine covered.safe_call lasting ?_ holds ?_
    · trivial
    · intro media after held
      exact ⟨held, media, rfl⟩
  · exact ⟨holds, item.media, rfl⟩

theorem safe_locate (covered : Covered syncer protocol)
    (lasting : Lasting property) (holds : property moment.past) :
    Safe protocol 0
      (fun located after => property after.past ∧
        ∀ paths, located = .ok paths →
          syncer.resolveFor item.source item.arrPath = .ok paths)
      (syncer.locate item) moment := by
  unfold Syncer.locate
  apply Safe.proceed
  · intro reason _
    exact ⟨holds, fun _ failed => nomatch failed⟩
  · intro paths found
    have resolved := eq_ok_of_context found
    refine covered.safe_call lasting ?_ holds ?_
    · trivial
    · intro there after held
      split
      · refine ⟨held, fun other same => ?_⟩
        cases same
        exact resolved
      · exact ⟨held, fun _ failed => nomatch failed⟩

theorem safe_shareAnew (covered : Covered syncer protocol)
    (told : Told pass readings items moment.past) (member : item ∈ items) :
    Safe protocol 0 (fun _ after => Told pass readings items after.past)
      (syncer.shareAnew pass item (knownItems readings.known item.key))
      moment := by
  have lasting := lasting_told pass readings items
  apply (covered.safe_withMedia lasting told).bind
  rintro found moment ⟨told, media, rfl⟩
  split
  · apply (covered.safe_common lasting (syncer.locate_common _) told).bind
    intro located moment told
    apply Safe.proceed
    · exact fun _ _ => told
    · exact fun _ _ => told
  · apply (covered.safe_common lasting (syncer.record_common _) told).bind
    intro recorded moment told
    apply Safe.proceed
    · exact fun _ _ => told
    · intro _ _
      apply (covered.safe_locate lasting told).bind
      rintro located moment ⟨told, resolved⟩
      apply Safe.proceed
      · exact fun _ _ => told
      · intro paths found
        exact covered.seeds told member (resolved paths found)

theorem safe_share (covered : Covered syncer protocol)
    (told : Told pass readings items moment.past) (member : item ∈ items) :
    Safe protocol 0 (fun _ after => Told pass readings items after.past)
      (syncer.share pass item (knownItems readings.known item.key))
      moment := by
  unfold Syncer.share
  split
  · rename_i known hash reported settled
    split
    · exact told
    · apply (covered.confirms told member settled).bind
      exact fun _ _ told => told
  · exact covered.safe_shareAnew told member

theorem safe_visit (covered : Covered syncer protocol) (report : SyncReport)
    (told : Told pass readings items moment.past) (member : item ∈ items) :
    Safe protocol 0 (fun _ after => Told pass readings items after.past)
      (syncer.visit pass readings report item) moment := by
  have lasting := lasting_told pass readings items
  unfold Syncer.visit
  dsimp only
  split
  · exact covered.safe_common lasting (Syncer.endShare_common ..) told
  · apply (covered.watches told member).bind
    intro report moment told
    apply (covered.safe_share told member).bind
    intro shared moment told
    cases shared with
    | ok step => exact told
    | error reason =>
      exact covered.safe_common lasting (Syncer.recordFailure_common ..)
        told

theorem safe_settle (covered : Covered syncer protocol) (report : SyncReport)
    (told : Told pass readings discovery.items moment.past) :
    Safe protocol 0 (fun _ _ => True)
      (syncer.settle pass readings discovery report) moment := by
  have loop := Safe.fold
    (fun rest (_ : SyncReport) after =>
      Told pass readings discovery.items after.past ∧
        ∀ item ∈ rest, item ∈ discovery.items)
    (by
      rintro item rest report moment ⟨told, among⟩
      apply (covered.safe_visit report told
        (among item List.mem_cons_self)).mono
      intro _ _ told
      exact ⟨told, fun other member =>
        among other (List.mem_cons_of_mem _ member)⟩)
    discovery.items report moment ⟨told, fun _ member => member⟩
  apply loop.bind
  rintro report moment ⟨told, -⟩
  apply (covered.safe_common (lasting_told pass readings discovery.items)
    (Syncer.withdrawUntagged_common ..) told).bind
  exact fun _ _ _ => trivial

/-- An opening call: its answer is the last one heard from then on. -/
theorem safe_opening (covered : Covered syncer protocol)
    (unshaken : Unshaken property) (opening : request.IsOpening)
    (holds : property moment.past)
    (rest : ∀ past answer after, property past →
      after.past = past ++ [⟨0, request, answer⟩] →
        Safe protocol 0 post (next answer) after) :
    Safe protocol 0 post (.call request next) moment := by
  apply Safe.call unshaken.stable holds
  intro before answer after held performed
  exact ⟨covered.kept (.inl rfl) (.inr opening) performed,
    covered.guaranteed (.inl rfl) performed,
    rest before.past answer after held performed.past⟩

/-- A discovery reports what the sources asked so far, all but `kinds`, last
answered. -/
structure Discovering (sources : List MediaSource) (announce : AnnounceSet)
    (kinds : List MediaSource) (discovery : Discovery) (past : List Event) :
    Prop where
  announce : Heard past .announceSet (.ok announce)
  items : ∀ item ∈ discovery.items, ∃ kind scan, kind ∉ kinds ∧
    Heard past (.discover kind) (.ok scan) ∧ item ∈ scan.items
  asked : Asked (sources.filter (· ∉ kinds)) discovery.items past

theorem lasting_discovering (sources : List MediaSource)
    (announce : AnnounceSet) (kinds : List MediaSource)
    (discovery : Discovery) :
    Lasting (Discovering sources announce kinds discovery) := by
  intro past event discovering other
  refine ⟨discovering.announce.lasting other trivial, ?_,
    lasting_asked _ _ _ _ discovering.asked other⟩
  intro item member
  obtain ⟨kind, scan, asked, heard, among⟩ := discovering.items item member
  exact ⟨kind, scan, asked, heard.lasting other trivial, among⟩

/-- What `kind` answers is added to what the discovery reports. -/
theorem mem_absorb {kind : MediaSource} {answer : Except String SourceScan} :
    item ∈ (discovery.absorb kind answer).items ↔
      item ∈ discovery.items ∨ ∃ scan, answer = .ok scan ∧
        item ∈ scan.items := by
  cases answer with
  | error reason => simp [Discovery.absorb]
  | ok scan => simp [Discovery.absorb]

section Discovering

variable {sources : List MediaSource} {announce : AnnounceSet}
variable {discovery : Discovery} {past : List Event}

theorem Discovering.absorb {kind : MediaSource} {kinds : List MediaSource}
    (discovering : Discovering sources announce (kind :: kinds) discovery
      past)
    (fresh : kind ∉ kinds) (answer : Except String SourceScan) :
    Discovering sources announce kinds (discovery.absorb kind answer)
      (past ++ [⟨0, .discover kind, answer⟩]) := by
  refine ⟨discovering.announce.append (by simp), ?_, ?_⟩
  · intro item member
    rcases mem_absorb.mp member with old | ⟨scan, rfl, new⟩
    · obtain ⟨other, scan, asked, heard, among⟩ := discovering.items item old
      refine ⟨other, scan, fun later => asked (List.mem_cons_of_mem _ later),
        heard.append ?_, among⟩
      rintro - same
      apply asked
      rw [← Call.discover.inj same]
      exact List.mem_cons_self
    · exact ⟨kind, scan, fresh, .last .., new⟩
  · intro other member
    obtain ⟨among, asked⟩ := List.mem_filter.mp member
    by_cases same : other = kind
    · subst same
      exact ⟨answer, .last .., fun scan found item new =>
        mem_absorb.mpr (.inr ⟨scan, found, new⟩)⟩
    · have before : other ∈ sources.filter (· ∉ kind :: kinds) :=
        List.mem_filter.mpr ⟨among, by simpa [same] using asked⟩
      obtain ⟨earlier, heard, items⟩ := discovering.asked other before
      refine ⟨earlier, heard.append ?_, fun scan found item old =>
        mem_absorb.mpr (.inl (items scan found item old))⟩
      rintro - named
      exact same (Call.discover.inj named).symm

theorem safe_discover (covered : Covered syncer protocol)
    (heard : Heard moment.past .announceSet (.ok announce)) :
    Safe protocol 0
      (fun discovery after =>
        Discovering syncer.sources announce [] discovery after.past)
      (discover syncer.sources) moment := by
  have loop : Safe protocol 0
      (fun discovery (after : Moment) => ([] : List MediaSource).Nodup ∧
        Discovering syncer.sources announce [] discovery after.past)
      (discover syncer.sources) moment := by
    refine Safe.fold (fun kinds discovery after => kinds.Nodup ∧
      Discovering syncer.sources announce kinds discovery after.past)
        ?_ _ _ _ ⟨syncer.distinct, heard, ?_, ?_⟩
    · rintro kind kinds discovery moment ⟨distinct, discovering⟩
      refine covered.safe_opening
        (lasting_discovering _ announce (kind :: kinds) discovery).unshaken
        ?_ discovering ?_
      · trivial
      · intro past answer after discovering grown
        refine ⟨distinct.of_cons, ?_⟩
        rw [grown]
        exact discovering.absorb (List.nodup_cons.mp distinct).1 answer
    · exact fun _ member => absurd member List.not_mem_nil
    · intro kind member
      simp at member
  exact loop.mono fun _ _ ended => ended.2

/-- A discovery and the answers to the readings made since. -/
structure Gathered (sources : List MediaSource) (announce : AnnounceSet)
    (discovery : Discovery)
    (answers : List ((request : Call) × Answer request))
    (past : List Event) : Prop where
  discovering : Discovering sources announce [] discovery past
  heard : ∀ entry ∈ answers, entry.1.IsOpening ∧ Heard past entry.1 entry.2

theorem lasting_gathered (sources : List MediaSource)
    (announce : AnnounceSet) (discovery : Discovery)
    (answers : List ((request : Call) × Answer request)) :
    Lasting (Gathered sources announce discovery answers) := by
  intro past event gathered other
  refine ⟨lasting_discovering _ _ _ _ _ _ gathered.discovering other, ?_⟩
  intro entry member
  obtain ⟨opening, heard⟩ := gathered.heard entry member
  exact ⟨opening, heard.lasting other opening⟩

variable {answers : List ((request : Call) × Answer request)}

variable {request : Call}

theorem Gathered.more
    (gathered : Gathered sources announce discovery answers past)
    (opening : request.IsOpening) (new : ∀ entry ∈ answers, request ≠ entry.1)
    (noSource : ∀ kind, request ≠ .discover kind)
    (noAnnounce : request ≠ .announceSet) (answer : Answer request) :
    Gathered sources announce discovery (⟨request, answer⟩ :: answers)
      (past ++ [⟨0, request, answer⟩]) := by
  refine ⟨⟨gathered.discovering.announce.append fun _ => noAnnounce, ?_, ?_⟩,
    ?_⟩
  · intro item member
    obtain ⟨kind, scan, asked, heard, among⟩ :=
      gathered.discovering.items item member
    exact ⟨kind, scan, asked, heard.append fun _ => noSource kind, among⟩
  · intro kind member
    obtain ⟨earlier, heard, items⟩ := gathered.discovering.asked kind member
    exact ⟨earlier, heard.append fun _ => noSource kind, items⟩
  · intro entry member
    rcases List.mem_cons.mp member with rfl | old
    · exact ⟨opening, .last ..⟩
    · obtain ⟨opening, heard⟩ := gathered.heard entry old
      exact ⟨opening, heard.append fun _ => new entry old⟩

theorem safe_gather {next : Answer request → Program α}
    {post : α → Moment → Prop} (covered : Covered syncer protocol)
    (stays : ∀ past event, property past →
      (event.thread = 0 → ¬ event.request.Writes) → property (past ++ [event]))
    (gathered : Gathered sources announce discovery answers moment.past)
    (holds : property moment.past) (opening : request.IsOpening)
    (new : ∀ entry ∈ answers, request ≠ entry.1)
    (noSource : ∀ kind, request ≠ .discover kind)
    (noAnnounce : request ≠ .announceSet)
    (rest : ∀ answer after,
      Gathered sources announce discovery (⟨request, answer⟩ :: answers)
        after.past → property after.past →
          Safe protocol 0 post (next answer) after) :
    Safe protocol 0 post (.call request next) moment := by
  have unshaken := (lasting_gathered sources announce discovery
    answers).unshaken.and fun past event held other =>
      stays past event held fun syncer => absurd syncer other
  apply covered.safe_opening unshaken opening ⟨gathered, holds⟩
  rintro past answer after ⟨gathered, held⟩ grown
  apply rest <;> rw [grown]
  · exact gathered.more opening new noSource noAnnounce answer
  · exact stays _ _ held fun _ => opening.not_writes

end Discovering

/-- What a pass read before it applies anything is what it last heard. -/
structure Opened (sources : List MediaSource) (announce : AnnounceSet)
    (discovery : Discovery) (reads : Syncer.Reads) (past : List Event) :
    Prop where
  announce : Heard past .announceSet (.ok announce)
  items : ∀ item ∈ discovery.items, ∃ kind scan,
    Heard past (.discover kind) (.ok scan) ∧ item ∈ scan.items
  asked : Asked sources discovery.items past
  torrents : Heard past .list reads.torrents
  rows : Heard past .allItems reads.items
  unwritten : ∀ rows, reads.items = .ok rows → Unwritten past rows
  together : ∀ rows stamps, reads.items = .ok rows →
    reads.stamps = .ok stamps → ReadTogether past rows stamps
  ends : Heard past .shareEnds reads.ends
  origins : Heard past .itemOrigins reads.origins

section Opened

variable {sources : List MediaSource} {announce : AnnounceSet}
variable {discovery : Discovery} {reads : Syncer.Reads}

/-- Every event but one of these readings, and a write to an item, leaves what
was read. -/
theorem Opened.append {past : List Event} {event : Event}
    (opened : Opened sources announce discovery reads past)
    (other : event.thread = 0 → ¬ event.request.IsOpening ∨
      event.request = .nowEpoch)
    (writes : event.thread = 0 → ¬ event.request.Writes) :
    Opened sources announce discovery reads (past ++ [event]) := by
  have silent : ∀ request : Call, request.IsOpening → request ≠ .nowEpoch →
      event.thread = 0 → event.request ≠ request := by
    rintro request opening dated syncer rfl
    rcases other syncer with not_opening | now
    · exact not_opening opening
    · exact dated now
  refine
    { announce := opened.announce.append (silent _ trivial (by simp))
      items := ?_
      asked := ?_
      torrents := opened.torrents.append (silent _ trivial (by simp))
      rows := opened.rows.append (silent _ trivial (by simp))
      unwritten := fun rows read => (opened.unwritten rows read).append writes
      together := fun rows stamps read listed =>
        (opened.together rows stamps read listed).append event
      ends := opened.ends.append (silent _ trivial (by simp))
      origins := opened.origins.append (silent _ trivial (by simp)) }
  · intro item member
    obtain ⟨kind, scan, heard, among⟩ := opened.items item member
    exact ⟨kind, scan, heard.append (silent _ trivial (by simp)), among⟩
  · intro kind member
    obtain ⟨answer, heard, among⟩ := opened.asked kind member
    exact ⟨answer, heard.append (silent _ trivial (by simp)), among⟩

theorem unshaken_opened (sources : List MediaSource)
    (announce : AnnounceSet) (discovery : Discovery)
    (reads : Syncer.Reads) :
    Unshaken (Opened sources announce discovery reads) :=
  fun _ _ opened other => opened.append (fun syncer => absurd syncer other)
    fun syncer => absurd syncer other

theorem safe_readAll (covered : Covered syncer protocol)
    (discovering : Discovering sources announce [] discovery moment.past) :
    Safe protocol 0
      (fun reads after => Opened sources announce discovery reads after.past)
      Syncer.readAll moment := by
  have begun : Gathered sources announce discovery [] moment.past :=
    ⟨discovering, fun _ member => absurd member List.not_mem_nil⟩
  have nothing : ∀ (past : List Event) (event : Event), True →
      (event.thread = 0 → ¬ event.request.Writes) → True :=
    fun _ _ _ _ => trivial
  refine covered.safe_gather nothing begun trivial trivial (by simp)
    (by simp) (by simp) ?_
  intro torrents moment gathered _
  refine covered.safe_opening (lasting_gathered sources announce discovery
    [⟨.list, torrents⟩]).unshaken ?_ gathered ?_
  · trivial
  intro past items moment gathered grown
  -- Nobody but the other threads is heard before the stamps are read.
  have just : ∀ rows, items = .ok rows → JustRead moment.past rows := by
    rintro rows rfl
    exact ⟨past, [], grown, fun _ member => absurd member List.not_mem_nil⟩
  have fresh : ∀ rows, items = .ok rows → Unwritten moment.past rows := by
    rintro rows rfl
    exact ⟨past, [], grown, fun _ member => absurd member List.not_mem_nil⟩
  have gathered : Gathered sources announce discovery
      [⟨.allItems, items⟩, ⟨.list, torrents⟩] moment.past := by
    rw [grown]
    refine gathered.more ?_ (by simp) (by simp) (by simp) items
    trivial
  have stays : Unshaken fun past => ∀ rows, items = .ok rows →
      JustRead past rows ∧ Unwritten past rows :=
    fun _ _ just other rows read =>
      ⟨(just rows read).1.append other,
        (just rows read).2.append fun syncer => absurd syncer other⟩
  have unshaken := (lasting_gathered sources announce discovery
    [⟨.allItems, items⟩, ⟨.list, torrents⟩]).unshaken.and stays
  refine covered.safe_opening unshaken ?_
    ⟨gathered, fun rows read => ⟨just rows read, fresh rows read⟩⟩ ?_
  · trivial
  rintro past stamps moment ⟨gathered, just⟩ grown
  have both : (∀ rows, items = .ok rows → Unwritten moment.past rows) ∧
      ∀ rows listed, items = .ok rows → stamps = .ok listed →
        ReadTogether moment.past rows listed := by
    constructor
    · intro rows read
      rw [grown]
      exact (just rows read).2.append fun _ => id
    · rintro rows listed read rfl
      exact ⟨past, [], grown, (just rows read).1⟩
  have gathered : Gathered sources announce discovery
      [⟨.fileStamps, stamps⟩, ⟨.allItems, items⟩, ⟨.list, torrents⟩]
        moment.past := by
    rw [grown]
    refine gathered.more ?_ (by simp) (by simp) (by simp) stamps
    trivial
  have stays : ∀ past event,
      ((∀ rows, items = .ok rows → Unwritten past rows) ∧
        ∀ rows listed, items = .ok rows → stamps = .ok listed →
          ReadTogether past rows listed) →
      (event.thread = 0 → ¬ event.request.Writes) →
        (∀ rows, items = .ok rows → Unwritten (past ++ [event]) rows) ∧
          ∀ rows listed, items = .ok rows → stamps = .ok listed →
            ReadTogether (past ++ [event]) rows listed :=
    fun _ event held reads =>
      ⟨fun rows read => (held.1 rows read).append reads,
        fun rows listed read found => (held.2 rows listed read found).append
          event⟩
  refine covered.safe_gather stays gathered both trivial (by simp)
    (by simp) (by simp) ?_
  intro ends moment gathered both
  refine covered.safe_gather stays gathered both trivial (by simp)
    (by simp) (by simp) ?_
  intro origins moment gathered both
  refine
    { announce := gathered.discovering.announce
      items := ?_
      asked := ?_
      torrents := (gathered.heard ⟨.list, torrents⟩ (by simp)).2
      rows := (gathered.heard ⟨.allItems, items⟩ (by simp)).2
      unwritten := both.1
      together := both.2
      ends := (gathered.heard ⟨.shareEnds, ends⟩ (by simp)).2
      origins := (gathered.heard ⟨.itemOrigins, origins⟩ (by simp)).2 }
  · intro item member
    obtain ⟨kind, scan, -, heard, among⟩ :=
      gathered.discovering.items item member
    exact ⟨kind, scan, heard, among⟩
  · simpa using gathered.discovering.asked

end Opened

section Settles

variable {announce : AnnounceSet} {discovery : Discovery}
variable {reads : Syncer.Reads} {dryRun : Bool}
variable {post : Except String SyncReport → Moment → Prop}

variable {now : Int}

theorem safe_applyReads (settles : Settles syncer protocol dryRun post)
    (failed : ∀ reason moment, post (.error reason) moment)
    {ends : List (ItemKey × Int)} {origins : OriginTable}
    (opened : Opened syncer.sources announce discovery reads moment.past)
    (dated : reads.ends = .ok ends) (read : reads.origins = .ok origins)
    (heard : Heard moment.past .nowEpoch now)
    (holds : protocol.invariant moment) :
    Safe protocol 0 post
      (syncer.applyReads announce dryRun discovery reads ends origins now
        (Syncer.discoveryReport discovery)) moment := by
  unfold Syncer.applyReads
  apply Safe.proceed
  · exact fun _ _ => failed _ _
  · intro torrents listed
    apply Safe.proceed
    · exact fun _ _ => failed _ _
    · intro rows known
      have rowsRead := Rust.eq_ok_of_mapError known
      refine settles rfl ⟨?_, opened.asked, rows,
        opened.unwritten rows rowsRead, rfl⟩ holds
      refine
        { announce := opened.announce
          torrents := ?_
          origins := read ▸ opened.origins
          rows := ⟨rows, rowsRead ▸ opened.rows, rfl, ?_⟩
          ends := dated ▸ opened.ends
          now := heard
          items := opened.items }
      · exact eq_ok_of_context listed ▸ opened.torrents
      · cases stamps : reads.stamps with
        | error reason => exact .inl rfl
        | ok listed => exact .inr (opened.together rows listed rowsRead stamps)

theorem safe_recordAudiences (covered : Covered syncer protocol)
    {audiences : List (MediaSource × SourceAudience)}
    (opened : Opened syncer.sources announce discovery reads moment.past)
    (heard : Heard moment.past .nowEpoch now)
    (holds : protocol.invariant moment) :
    Safe protocol 0
      (fun _ after =>
        (Opened syncer.sources announce discovery reads after.past ∧
          Heard after.past .nowEpoch now) ∧ protocol.invariant after)
      (syncer.recordAudiences audiences) moment := by
  induction audiences generalizing moment with
  | nil => exact ⟨⟨opened, heard⟩, holds⟩
  | cons audience audiences ih =>
    have sees : Unshaken fun past => Heard past .nowEpoch now :=
      fun _ _ heard other => heard.append fun syncer =>
        absurd syncer other
    have unshaken := (unshaken_opened syncer.sources announce discovery
      reads).and sees
    obtain ⟨source, who⟩ := audience
    apply Safe.call unshaken.stable ⟨opened, heard⟩
    rintro before answer after ⟨opened, heard⟩ performed
    have common : (Call.replaceAudience source who).IsCommon := trivial
    have kept := covered.kept (.inl rfl) (.inl common) performed
    refine ⟨kept, covered.guaranteed (.inl rfl) performed, ?_⟩
    have later : Opened syncer.sources announce discovery reads
        after.past ∧ Heard after.past .nowEpoch now := by
      rw [performed.past]
      exact ⟨opened.append (fun _ => .inl id) fun _ => id,
        heard.append fun _ => by simp⟩
    apply Safe.proceed
    · exact fun _ _ => ⟨later, kept⟩
    · exact fun _ _ => ih later.1 later.2 kept

theorem safe_applyDiscovery (covered : Covered syncer protocol)
    (settles : Settles syncer protocol dryRun post)
    (failed : ∀ reason moment, post (.error reason) moment)
    (opened : Opened syncer.sources announce discovery reads moment.past) :
    Safe protocol 0 post
      (syncer.applyDiscovery announce dryRun discovery reads) moment := by
  have unshaken := unshaken_opened syncer.sources announce discovery reads
  unfold Syncer.applyDiscovery
  split
  · exact failed _ _
  · apply Safe.proceed
    · exact fun _ _ => failed _ _
    · intro ends dates
      have dated := Rust.eq_ok_of_mapError (eq_ok_of_context dates)
      apply Safe.proceed
      · exact fun _ _ => failed _ _
      · intro origins found
        have read := Rust.eq_ok_of_mapError (eq_ok_of_context found)
        apply Safe.call unshaken.stable opened
        intro before now after opened performed
        have opening : Call.nowEpoch.IsOpening := trivial
        have kept := covered.kept (.inl rfl) (.inr opening) performed
        refine ⟨kept, covered.guaranteed (.inl rfl) performed, ?_⟩
        have noted : Opened syncer.sources announce discovery reads
            after.past ∧ Heard after.past .nowEpoch now := by
          rw [performed.past]
          exact ⟨opened.append (fun _ => .inr rfl) fun _ => id, .last ..⟩
        have recorded : Safe protocol 0
            (fun _ after =>
              (Opened syncer.sources announce discovery reads after.past ∧
                Heard after.past .nowEpoch now) ∧ protocol.invariant after)
            (if dryRun then .done (.ok ())
              else syncer.recordAudiences discovery.audiences) after := by
          split
          · exact ⟨noted, kept⟩
          · exact covered.safe_recordAudiences noted.1 noted.2 kept
        apply recorded.bind
        rintro result after ⟨⟨opened, heard⟩, holds⟩
        apply Safe.proceed
        · exact fun _ _ => failed _ _
        · intro _ _
          exact safe_applyReads settles failed opened dated read heard holds

theorem safe_reconcile (covered : Covered syncer protocol)
    (settles : Settles syncer protocol dryRun post)
    (failed : ∀ reason moment, post (.error reason) moment) :
    Safe protocol 0 post (syncer.reconcile dryRun) moment := by
  unfold Syncer.reconcile
  have tracked : Safe protocol 0 (fun _ _ => True)
      (if dryRun then .done (.ok ()) else syncer.trackCapInForce) moment := by
    split
    · trivial
    · exact covered.safe_common lasting_true syncer.trackCapInForce_common
        trivial
  apply tracked.bind
  intro result moment _
  apply Safe.proceed
  · exact fun _ _ => failed _ _
  · intro _ _
    refine covered.safe_call lasting_true ?_ trivial ?_
    · trivial
    · intro ready moment _
      apply Safe.proceed
      · exact fun _ _ => failed _ _
      · intro _ _
        refine covered.safe_opening lasting_true.unshaken ?_ trivial ?_
        · trivial
        · intro past answer moment _ grown
          apply Safe.proceed
          · exact fun _ _ => failed _ _
          · rintro announce rfl
            have heard : Heard moment.past .announceSet (.ok announce) := by
              rw [grown]
              exact .last ..
            apply (covered.safe_discover heard).bind
            intro discovery moment discovering
            apply (covered.safe_readAll discovering).bind
            intro reads moment opened
            exact covered.safe_applyDiscovery settles failed opened

end Settles

theorem safe_run (covered : Covered syncer protocol) (dryRun : Bool) :
    Safe protocol 0 (fun _ _ => True) (syncer.run dryRun) moment := by
  have settles : ∀ dryRun,
      Settles syncer protocol dryRun fun _ _ => True := by
    intro dryRun pass readings discovery moment _ ready _
    exact (covered.safe_settle _ ready.told).mono fun _ _ _ => trivial
  unfold Syncer.run
  split
  · exact covered.safe_reconcile (settles true) fun _ _ => trivial
  · refine covered.safe_call lasting_true ?_ trivial ?_
    · trivial
    · intro begun moment _
      apply Safe.proceed
      · exact fun _ _ => trivial
      · intro runId _
        apply (covered.safe_reconcile (settles false)
          fun _ _ => trivial).bind
        intro outcome moment _
        refine covered.safe_call lasting_true ?_ trivial ?_
        · trivial
        · exact fun _ _ _ => trivial

theorem safe_job (covered : Covered syncer protocol) (job : Job) :
    Safe protocol 0 (fun _ _ => True) (syncer.job job) moment := by
  cases job with
  | run dryRun =>
    exact (covered.safe_run dryRun).bind fun _ _ _ => trivial
  | unshare key | rebuild key =>
    exact covered.safe_common lasting_true
      (syncer.job_common (by simp)) trivial

theorem safe_jobs (covered : Covered syncer protocol)
    (work : List (Job × Nat)) (holds : protocol.invariant moment) :
    Safe protocol 0 (fun _ after => protocol.invariant after)
      (syncer.jobs work) moment := by
  apply Safe.fold (fun _ _ after => protocol.invariant after) _ _ _ _ holds
  intro entry entries _ moment holds
  exact (Safe.cut holds (covered.safe_job entry.1) entry.2).bind
    fun _ _ holds => holds

/-- However the settings change, what is covered for every syncer is kept. -/
theorem safe_sequence (covered : ∀ syncer, Covered syncer protocol)
    (work : List (Syncer × List (Job × Nat)))
    (holds : protocol.invariant moment) :
    Safe protocol 0 (fun _ after => protocol.invariant after)
      (sequence work) moment := by
  apply Safe.fold (fun _ _ after => protocol.invariant after) _ _ _ _ holds
  intro entry entries _ moment _
  apply Safe.call (fun _ _ _ _ => trivial) trivial
  intro before answer after _ performed
  have common : Call.renew.IsCommon := trivial
  have kept := (covered entry.1).kept (.inl rfl) (.inl common) performed
  exact ⟨kept, (covered entry.1).guaranteed (.inl rfl) performed,
    (covered entry.1).safe_jobs entry.2 kept⟩

theorem safe_visitor (covered : Covered syncer protocol) (visitor : Visitor)
    (thread : Nat) :
    Safe protocol thread (fun _ _ => True) visitor.program moment := by
  apply Safe.of_only (fun _ _ _ _ => trivial) _ visitor.visits trivial
  intro before request answer after visit _ performed
  have common : request.IsCommon := by
    cases request with
    | seedingItems | audiences | edit => trivial
    | _ => exact visit.elim
  exact ⟨covered.kept (.inr visit) (.inl common) performed,
    covered.guaranteed (.inr visit) performed, trivial⟩

/-- What is covered holds at every moment of every run. -/
theorem of_run (covered : Covered syncer protocol)
    {work : List (Job × Nat)} {visitors : Nat → Visitor} {world : World}
    {trace : List Event} {pool : Pool}
    (holds : protocol.invariant ⟨world, []⟩)
    (run : Run protocol.perform protocol.condition
      (start syncer work visitors world) trace pool) :
    protocol.invariant ⟨pool.world, trace⟩ := by
  have sound : Sound protocol (fun _ _ _ => True) []
      (start syncer work visitors world) := by
    refine ⟨holds, fun thread => ?_⟩
    unfold start
    dsimp only
    split
    · rename_i first
      subst first
      exact (covered.safe_jobs work holds).bind fun _ _ _ => trivial
    · exact covered.safe_visitor _ thread
  exact (Run.sound (fun _ _ _ _ _ _ => trivial) run sound).holds

end Covered

theorem forItem_unread {α : Type} (key : ItemKey)
    (program : Seeder.Program α) :
    (Syncer.forItem key program).Only fun request => ¬ request.IsOpening :=
  (Prog.Only.any program).lift fun _ _ => id

section Unread

variable (syncer : Syncer)

theorem confirmLive_unread (pass : PassContext) (key : ItemKey)
    (known : SharedItem) (hash : String) (reported : TorrentSummary) :
    (syncer.confirmLive pass key known hash reported).Only
      fun request => ¬ request.IsOpening := by
  apply ((syncer.upstreamOf_plain pass key known hash).mono
    fun _ plain => plain.1).bind
  intro upstream
  apply ((syncer.ratioLimitOf_common known hash reported).mono
    fun _ common => common.plain.1).bind
  intro ratioLimit
  apply (forItem_unread key _).bind
  intro refreshed
  split <;> exact ⟨id, fun _ => trivial⟩

theorem seedItem_unread (pass : PassContext) (item : Discovered)
    (known : Option SharedItem) (paths : ResolvedPaths) :
    (syncer.seedItem pass item known paths).Only
      fun request => ¬ request.IsOpening := by
  refine ⟨id, fun stamp => ⟨id, fun entries => ?_⟩⟩
  apply (forItem_unread item.key _).attempt
  intro outcome
  exact (syncer.recordSeeded_plain ..).mono fun _ plain => plain.1

end Unread

theorem safe_lasting {α : Type} {protocol : Protocol Nat World Call Answer}
    {property : List Event → Prop} {program : Program α}
    {post : α → Moment → Prop} {moment : Moment}
    (lasting : Lasting property)
    (only : program.Only fun request => ¬ request.IsOpening)
    (safe : Safe protocol 0 post program moment)
    (holds : property moment.past) :
    Safe protocol 0
      (fun value after => post value after ∧ property after.past) program
        moment := by
  apply Safe.framed lasting.unshaken.stable _ only safe holds
  intro before request answer after unread performed held
  rw [performed.past]
  exact lasting _ _ held fun _ => unread

/-- No request of the seeder is one of the readings of a pass. -/
theorem Lasting.seeder (lasting : Lasting property) {thread : Nat}
    {key : ItemKey} {request : Seeder.Call}
    {answer : Answer (.seeder key request)} {before after : Moment}
    (performed : Performed protocol thread before (.seeder key request) answer
      after) (holds : property before.past) : property after.past := by
  rw [performed.past]
  exact lasting _ _ holds fun _ => id

/-- A rule about the requests `Seeder.Call.IsAct`: every other call keeps
it. -/
structure KeepsPlain (protocol : Protocol Nat World Call Answer) : Prop where
  guaranteed : ∀ thread before after, protocol.guarantee thread before after
  kept : ∀ {thread before request answer after}, ¬ request.IsAct →
    Performed protocol thread before request answer after →
      protocol.invariant after

/-- What is left to show for such a rule: the refreshing and the seeding of an
item keep it. -/
structure Acts (syncer : Syncer)
    (protocol : Protocol Nat World Call Answer) : Prop
    extends KeepsPlain protocol, Confirms syncer protocol where
  seeds : ∀ {pass readings items item media paths entries} {moment : Moment},
    Told pass readings items moment.past → item ∈ items →
      syncer.resolveFor item.source item.arrPath = .ok paths →
        Safe protocol 0 (fun _ after => Told pass readings items after.past)
          (Syncer.forItem item.key (syncer.seeder.seed paths pass.announce
            pass.torrents
            ((knownItems readings.known item.key).bind (·.infoHash)) media
            ⟨entries, pass.origin item.key⟩)) moment

section

variable {syncer : Syncer} {protocol : Protocol Nat World Call Answer}
variable {property : List Event → Prop} {moment : Moment}

theorem KeepsPlain.safe_call {α : Type} {request : Call}
    {next : Answer request → Program α} {post : α → Moment → Prop}
    (keeps : KeepsPlain protocol) (lasting : Lasting property)
    (plain : request.IsPlain) (holds : property moment.past)
    (rest : ∀ answer after, property after.past →
      Safe protocol 0 post (next answer) after) :
    Safe protocol 0 post (.call request next) moment := by
  apply Safe.call lasting.unshaken.stable holds
  intro before answer after held performed
  refine ⟨keeps.kept plain.2 performed, keeps.guaranteed _ _ _,
    rest answer after ?_⟩
  rw [performed.past]
  exact lasting _ _ held fun _ => plain.1

theorem KeepsPlain.safe_plain {α : Type} {program : Program α}
    (keeps : KeepsPlain protocol) (lasting : Lasting property)
    (only : program.Only Call.IsPlain) (holds : property moment.past) :
    Safe protocol 0 (fun _ after => property after.past) program moment := by
  refine Safe.of_only lasting.unshaken.stable ?_ only holds
  intro before request answer after plain held performed
  refine ⟨keeps.kept plain.2 performed, keeps.guaranteed _ _ _, ?_⟩
  rw [performed.past]
  exact lasting _ _ held fun _ => plain.1

/-- An item that is seeding, given that its torrent is refreshed safely with
whatever trackers are found for it. -/
theorem KeepsPlain.safe_confirmLive (keeps : KeepsPlain protocol)
    (lasting : Lasting property) {pass : PassContext} {key : ItemKey}
    {known : SharedItem} {hash : String} {reported : TorrentSummary}
    (refreshes : ∀ upstream moment, property moment.past →
      Safe protocol 0 (fun _ after => property after.past)
        (Syncer.forItem key (syncer.seeder.refreshAnnounce hash pass.announce
          upstream)) moment)
    (holds : property moment.past) :
    Safe protocol 0 (fun _ after => property after.past)
      (syncer.confirmLive pass key known hash reported) moment := by
  apply (keeps.safe_plain lasting (syncer.upstreamOf_plain ..) holds).bind
  intro upstream moment holds
  apply (keeps.safe_plain lasting ((syncer.ratioLimitOf_common ..).mono
    fun _ common => common.plain) holds).bind
  intro ratioLimit moment holds
  apply (refreshes upstream moment holds).bind
  intro refreshed moment holds
  apply keeps.safe_plain lasting _ holds
  split <;> exact ⟨⟨id, id⟩, fun _ => trivial⟩

theorem Acts.covered (acts : Acts syncer protocol) :
    Covered syncer protocol where
  guaranteed := fun _ _ => acts.guaranteed _ _ _
  kept := by
    rintro thread before request answer after - (common | opening) performed
    · exact acts.kept common.plain.2 performed
    · exact acts.kept opening.not_act performed
  watches := by
    intro pass readings items item report moment told member
    exact acts.safe_plain (lasting_told _ _ _) (syncer.watch_plain ..) told
  confirms := acts.confirms
  seeds := by
    intro pass readings items item media paths moment told member resolved
    have lasting := lasting_told pass readings items
    refine acts.safe_call lasting ⟨id, id⟩ told ?_
    intro stamp moment told
    refine acts.safe_call lasting ⟨id, id⟩ told ?_
    intro entries moment told
    apply (acts.seeds told member resolved).bind
    intro outcome moment told
    apply Safe.proceed
    · exact fun _ _ => told
    · intro outcome _
      exact acts.safe_plain lasting (syncer.recordSeeded_plain ..) told

end

end Sync

end Sharerr
