import Sharerr.Sync.Calls

/-!
# The sync loop

One pass asks every library source what carries the tag, shares what is new,
confirms what is seeding and withdraws what is gone.  The reads at its start
overlap in the source; what they read is not written meanwhile, so they stand
here in one order.
-/

namespace Sharerr

/-- The parts of a syncer a pass computes with: the kinds of its sources, in
order, the resolver of paths, the rule for release titles, the hash of a
token, and how the store's errors print. -/
structure Syncer where
  sources : List MediaSource
  distinct : sources.Nodup
  seeder : Seeder
  resolveFor : MediaSource → String → Except String ResolvedPaths
  resolveTitle : Discovered → String
  fingerprint : String → String
  close : Ratio → Ratio → Bool
  printed : StoreError → String

namespace Sync

open Process (Prog)

inductive Step where
  | added
  | reused
  | unchanged
deriving DecidableEq, Repr

/-- One item a pass found something wrong with. -/
structure Flagged where
  hash : String
  title : String
deriving DecidableEq, Repr

/-- What a pass tells of itself, in numbers and in torrents to look at. -/
structure SyncReport where
  discovered : Nat
  added : Nat
  reused : Nat
  unchanged : Nat
  unshared : Nat
  failed : Nat
  sourcesFailed : Nat
  libraryUnreadable : Option String
  ended : Nat
  stopped : List Flagged
  removed : List Flagged
  changed : List Flagged
deriving DecidableEq, Repr

namespace SyncReport

def default : SyncReport :=
  ⟨0, 0, 0, 0, 0, 0, 0, none, 0, [], [], []⟩

def toSummary (report : SyncReport) : RunSummary where
  discovered := report.discovered
  added := report.added + report.reused
  unshared := report.unshared + report.ended
  failed := report.failed + report.sourcesFailed
  error := none

/-- The report after one more item was shared. -/
def count (report : SyncReport) : Step → SyncReport
  | .added => { report with added := report.added + 1 }
  | .reused => { report with reused := report.reused + 1 }
  | .unchanged => { report with unchanged := report.unchanged + 1 }

end SyncReport

structure Discovery where
  items : List Discovered
  scanned : List MediaSource
  withdrawable : List MediaSource
  audiences : List (MediaSource × SourceAudience)
  failures : Nat
  libraryUnreadable : Option String
deriving DecidableEq, Repr

namespace Discovery

def default : Discovery := ⟨[], [], [], [], 0, none⟩

def partlyListed : String :=
  "part of a library could not be listed — new files are still shared, but " ++
    "nothing is withdrawn until the whole library can be read; see the log " ++
    "for which directory"

/-- The discovery after `kind` answered. -/
def absorb (discovery : Discovery) (kind : MediaSource) :
    Except String SourceScan → Discovery
  | .ok scan =>
    { items := discovery.items ++ scan.items
      scanned := discovery.scanned ++ [kind]
      withdrawable := if scan.complete then discovery.withdrawable ++ [kind]
        else discovery.withdrawable
      audiences := discovery.audiences ++ [(kind, scan.audience)]
      failures := discovery.failures
      libraryUnreadable :=
        if !scan.complete && kind = .directory then some partlyListed
        else discovery.libraryUnreadable }
  | .error reason =>
    { discovery with
      failures := discovery.failures + 1
      libraryUnreadable := if kind = .directory then some reason
        else discovery.libraryUnreadable }

end Discovery

def discover (sources : List MediaSource) : Program Discovery :=
  Prog.fold
    (fun discovery kind => .call (.discover kind) fun result =>
      .done (discovery.absorb kind result))
    .default sources

/-- A row as a pass knows it: the hash in lower case. -/
def folded (item : SharedItem) : SharedItem :=
  { item with infoHash := item.infoHash.map Rust.toAsciiLowercase }

@[simp] theorem folded_key (item : SharedItem) :
    (folded item).key = item.key :=
  rfl

/-- The rows of a pass by their key. -/
def knownItems (items : List SharedItem) (key : ItemKey) :
    Option SharedItem :=
  Rust.collected (items.map fun item => (item.key, item)) key

structure PassContext where
  announce : AnnounceSet
  tokenFp : Option String
  torrents : List TorrentSummary
  origins : OriginTable
  dryRun : Bool

namespace PassContext

/-- The torrents of the client by their hash in lower case. -/
def live (pass : PassContext) (hash : String) : Option TorrentSummary :=
  Rust.collected (pass.torrents.map fun torrent =>
    (Rust.toAsciiLowercase torrent.hash, torrent)) hash

def origin (pass : PassContext) (key : ItemKey) : Option ItemOrigin :=
  Rust.collected pass.origins key

/-- The torrent an item is already seeding under, if the client agrees. -/
def settled (pass : PassContext) (known : Option SharedItem) :
    Option (SharedItem × String × TorrentSummary) := do
  let known ← known
  if known.state = .seeding then
    let hash ← known.infoHash
    let reported ← pass.live hash
    some (known, hash, reported)
  else none

end PassContext

end Sync

namespace Syncer

open Process (Prog)
open Sync

variable (syncer : Syncer)

def tokenFingerprint (announce : AnnounceSet) : Option String :=
  (tokenFromAnnounceUrl syncer.seeder.urls announce.primary).map
    syncer.fingerprint

/-- A request of the seeder, made for an item. -/
def forItem {α : Type} (key : ItemKey) (program : Seeder.Program α) :
    Program α :=
  program.lift (.seeder key) fun _ answer => answer

/-- `track_cap_in_force`. -/
def trackCapInForce : Program (Except String Unit) :=
  .call .minuteOfDay fun minute =>
    .call (.trackCap (syncer.seeder.seeding.uploadLimitAt minute)) .done

/-- The end of `reconcile_limits`. -/
def rememberLimits (hash : String) (applied : Bool) :
    Program (Except String Bool) :=
  .call (.rememberLimits hash) fun remembered =>
    Prog.proceed remembered fun _ => .done (.ok applied)

/-- Limits are set once for a torrent, until the cap changes. -/
def reconcileLimits (hash : String) (reported : TorrentSummary) :
    Program (Except String Bool) :=
  .call (.limitsApplied hash) fun applied =>
    Prog.proceed applied fun
      | true => .done (.ok false)
      | false =>
        .call .minuteOfDay fun minute =>
          let goal : SeedingLimits :=
            ⟨syncer.seeder.seeding.uploadLimitAt minute,
              syncer.seeder.seeding.ratioLimit⟩
          if goal.matches_ syncer.close reported then
            rememberLimits hash false
          else
            .call (.setLimits hash goal) fun set =>
              Prog.proceed (context ("applying seeding limits to " ++ hash ++
                  " in " ++ syncer.seeder.kind.asStr) set) fun _ =>
                rememberLimits hash true

/-- `Syncer::recover_upstream`. -/
def recoverUpstream (key : ItemKey) (hash : String)
    (announce : AnnounceSet) : Program (List String) :=
  (forItem key (syncer.seeder.recoverUpstream hash announce)).bind fun
    | .error _ => .done []
    | .ok upstream =>
      .call (.setItemOrigin key (some ⟨none, upstream.getD []⟩)) fun _ =>
        .done (upstream.getD [])

/-- The trackers an item's torrent has besides ours. -/
def upstreamOf (pass : PassContext) (key : ItemKey) (known : SharedItem)
    (hash : String) : Program (List String) :=
  match pass.origin key with
  | some origin => .done origin.upstream
  | none =>
    if known.createdBySharerr then .done []
    else syncer.recoverUpstream key hash pass.announce

/-- The ratio limit to record: the one in force after the limits were
applied. -/
def ratioLimitOf (known : SharedItem) (hash : String)
    (reported : TorrentSummary) : Program (Option Ratio) :=
  if known.createdBySharerr then
    (syncer.reconcileLimits hash reported).bind fun
      | .ok true =>
        .done (syncer.seeder.seeding.ratioLimit.or reported.ratioLimit)
      | _ => .done reported.ratioLimit
  else .done reported.ratioLimit

/-- Our token is only recorded once the trackers are known to be current. -/
def confirmLive (pass : PassContext) (key : ItemKey) (known : SharedItem)
    (hash : String) (reported : TorrentSummary) : Program Unit :=
  (syncer.upstreamOf pass key known hash).bind fun upstream =>
    (syncer.ratioLimitOf known hash reported).bind fun ratioLimit =>
      (forItem key (syncer.seeder.refreshAnnounce hash pass.announce
          upstream)).bind fun
        | .ok .current | .ok .updated =>
          .call (.update key (.confirmSeeding pass.tokenFp reported.ratio
            ratioLimit)) fun _ => .done ()
        | .ok .noCachedTorrent | .error _ =>
          .call (.update key (.setRatio reported.ratio ratioLimit)) fun _ =>
            .done ()

/-- The item with what reading the file says about it, where the source said
nothing. -/
def withMedia (item : Discovered) : Program Discovered :=
  match item.media, syncer.resolveFor item.source item.arrPath with
  | none, .ok paths =>
    .call (.probe item.key paths.sharerr) fun media =>
      .done { item with media := media }
  | _, _ => .done item

def notThere (item : Discovered) (paths : ResolvedPaths) : String :=
  if item.source = .directory then
    paths.sharerr ++
      " does not exist as sharerr sees it — check the [[library]] mount"
  else
    paths.sharerr ++ " does not exist as sharerr sees it (reported by " ++
      item.source.asStr ++ " as " ++ paths.arr ++ "). Check [[path_map]]"

/-- Where the file is, if it is there. -/
def locate (item : Discovered) : Program (Except String ResolvedPaths) :=
  Prog.proceed (context ("resolving " ++ item.arrPath)
      (syncer.resolveFor item.source item.arrPath)) fun paths =>
    .call (.tryExists item.key paths.sharerr) fun
      | .ok true => .done (.ok paths)
      | _ => .done (.error (notThere item paths))

/-- Record the item before anything can fail. -/
def record (item : Discovered) : Program (Except String Unit) :=
  .call .storeClock fun now =>
    .call (.upsert (item.intoSharedItem (syncer.resolveTitle item)) now)
      fun recorded => .done (recorded.mapError syncer.printed)

/-- What a seeding outcome makes `share` record. -/
structure Recorded where
  step : Step
  isPrivate : Option Bool
  stamp : Option FileStamp
  created : Bool
  infoHashV2 : Option String
  origin : Option ItemOrigin

def recorded (stamp : Option FileStamp) : SeedOutcome → Recorded
  | .added _ isPrivate infoHashV2 =>
    ⟨.added, some isPrivate, stamp, true, infoHashV2, none⟩
  | .reused _ upstream =>
    ⟨.reused, none, none, false, none, some ⟨none, upstream⟩⟩
  | .joined _ origin (some added) =>
    ⟨.reused, some added.isPrivate, stamp, true, added.infoHashV2,
      some origin⟩
  | .joined _ origin none =>
    ⟨.reused, none, none, false, none, some origin⟩

/-- The end of `recordSeeded`, after the row says the item is seeding. -/
def recordIdentity (key : ItemKey) (entry : Recorded) :
    Program (Except String Step) :=
  let rest : Program (Except String Step) :=
    .call (.setItemOrigin key entry.origin) fun set =>
      Prog.proceed (set.mapError syncer.printed) fun _ =>
        .call (.update key (.setFileStamp entry.stamp)) fun _ =>
          .done (.ok entry.step)
  match entry.infoHashV2 with
  | none => rest
  | some infoHashV2 =>
    .call (.update key (.setInfoHashV2 infoHashV2)) fun set =>
      Prog.proceed (set.mapError syncer.printed) fun _ => rest

def recordSeeded (pass : PassContext) (key : ItemKey)
    (stamp : Option FileStamp) (outcome : SeedOutcome) :
    Program (Except String Step) :=
  let entry := recorded stamp outcome
  .call (.update key (.setSeeding outcome.infoHash pass.tokenFp entry.created
      entry.isPrivate)) fun set =>
    Prog.proceed (set.mapError syncer.printed) fun _ =>
      syncer.recordIdentity key entry

def seedItem (pass : PassContext) (item : Discovered)
    (known : Option SharedItem) (paths : ResolvedPaths) :
    Program (Except String Step) :=
  .call (.fileStamp item.key paths.sharerr) fun stamp =>
    .call (.catalogMatches item.key item.spec item.ids item.size)
        fun entries =>
      (forItem item.key (syncer.seeder.seed paths pass.announce pass.torrents
          (known.bind (·.infoHash)) item.media
          ⟨entries.toOption.getD [], pass.origin item.key⟩)).attempt
        fun outcome => syncer.recordSeeded pass item.key stamp outcome

/-- `share` beyond its fast path. -/
def shareAnew (pass : PassContext) (item : Discovered)
    (known : Option SharedItem) : Program (Except String Step) :=
  (syncer.withMedia item).bind fun item =>
    if pass.dryRun then
      (syncer.locate item).attempt fun _ => .done (.ok .added)
    else
      (syncer.record item).attempt fun _ =>
        (syncer.locate item).attempt fun paths =>
          syncer.seedItem pass item known paths

def share (pass : PassContext) (item : Discovered)
    (known : Option SharedItem) : Program (Except String Step) :=
  match pass.settled known with
  | some (known, hash, reported) =>
    if pass.dryRun then .done (.ok .unchanged)
    else
      (syncer.confirmLive pass item.key known hash reported).bind fun _ =>
        .done (.ok .unchanged)
  | none => syncer.shareAnew pass item known

/-- The file's identity on disk now, if its path resolves. -/
def currentStamp (item : Discovered) : Program (Option FileStamp) :=
  match syncer.resolveFor item.source item.arrPath with
  | .error _ => .done none
  | .ok paths => .call (.fileStamp item.key paths.sharerr) .done

/-- What is flagged about a torrent of ours: gone from the client, or
stopped. -/
def flagTorrent (report : SyncReport) (flagged : Flagged) :
    Option TorrentSummary → SyncReport
  | none => { report with removed := report.removed ++ [flagged] }
  | some torrent =>
    if torrent.isStopped then
      { report with stopped := report.stopped ++ [flagged] }
    else report

/-- The changed-file check of `watch`. -/
def watchFile (pass : PassContext) (item : Discovered)
    (stamps : List (ItemKey × FileStamp)) (report : SyncReport)
    (flagged : Flagged) : Program SyncReport :=
  (syncer.currentStamp item).bind fun
    | none => .done report
    | some now =>
      match Rust.collected stamps item.key with
      | some built =>
        .done (if built = now then report
          else { report with changed := report.changed ++ [flagged] })
      | none =>
        if pass.dryRun then .done report
        else
          .call (.update item.key (.setFileStamp (some now))) fun _ =>
            .done report

/-- Torrents of our own making are reported when they stop, go or change. -/
def watch (pass : PassContext) (item : Discovered)
    (known : Option SharedItem) (stamps : List (ItemKey × FileStamp))
    (report : SyncReport) : Program SyncReport :=
  match known, known.bind (·.infoHash) with
  | some known, some hash =>
    if known.state = .seeding ∧ known.createdBySharerr then
      let flagged : Flagged := ⟨hash, known.releaseTitle⟩
      let report := flagTorrent report flagged (pass.live hash)
      if (pass.live hash).isNone then .done report
      else syncer.watchFile pass item stamps report flagged
    else .done report
  | _, _ => .done report

/-- The client is asked to let go of a torrent this instance added; that it
may refuse is not an error. -/
def removeOwn (item : SharedItem) : Program Unit :=
  match item.infoHash, item.createdBySharerr with
  | some hash, true => .call (.remove hash) fun _ => .done ()
  | _, _ => .done ()

def unshareOne (item : SharedItem) : Program (Except StoreError Unit) :=
  (removeOwn item).bind fun _ =>
    .call (.update item.key (.setState .unshared none)) .done

def prepareRebuild (item : SharedItem) : Program (Except StoreError Unit) :=
  (removeOwn item).bind fun _ =>
    .call (.update item.key .resetForRebuild) fun reset =>
      Prog.proceed reset fun _ => .call (.setItemOrigin item.key none) .done

/-- The items a pass withdraws: what a source that answered completely no
longer lists. -/
def isStale (tagged : List ItemKey) (withdrawable : List MediaSource)
    (item : SharedItem) : Bool :=
  item.source ∈ withdrawable && item.key ∉ tagged && item.state ≠ .unshared

/-- An item that cannot be withdrawn is left for the next pass. -/
def withdrawUntagged (known : List SharedItem) (tagged : List ItemKey)
    (withdrawable : List MediaSource) (dryRun : Bool) : Program Nat :=
  .call (.iterate known) fun order =>
    Prog.fold
      (fun count item =>
        if dryRun then .done (count + 1)
        else
          (unshareOne item).bind fun
            | .ok _ => .done (count + 1)
            | .error _ => .done count)
      0 (order.filter (isStale tagged withdrawable))

/-- An item whose share-until date has passed. -/
def endShare (pass : PassContext) (known : Option SharedItem)
    (report : SyncReport) : Program SyncReport :=
  match known with
  | none => .done report
  | some known =>
    if known.state = .unshared then .done report
    else if pass.dryRun then
      .done { report with ended := report.ended + 1 }
    else
      (unshareOne known).bind fun
        | .ok _ => .done { report with ended := report.ended + 1 }
        | .error _ => .done report

/-- What a failed share leaves behind: its reason on the row. -/
def recordFailure (pass : PassContext) (key : ItemKey) (reason : String)
    (report : SyncReport) : Program SyncReport :=
  let report := { report with failed := report.failed + 1 }
  if pass.dryRun then .done report
  else
    .call (.update key (.setState .failed (some reason))) fun _ =>
      .done report

/-- What the loop of a pass reads: the dates, the rows, the stamps. -/
structure Readings where
  ends : List (ItemKey × Int)
  now : Int
  known : List SharedItem
  stamps : List (ItemKey × FileStamp)

def Readings.isOver (readings : Readings) (key : ItemKey) : Bool :=
  (Rust.collected readings.ends key).any (· ≤ readings.now)

/-- One turn of the loop. -/
def visit (pass : PassContext) (readings : Readings) (report : SyncReport)
    (item : Discovered) : Program SyncReport :=
  let known := knownItems readings.known item.key
  if readings.isOver item.key then endShare pass known report
  else
    (syncer.watch pass item known readings.stamps report).bind fun report =>
      (syncer.share pass item known).bind fun
        | .ok step => .done (report.count step)
        | .error reason => recordFailure pass item.key reason report

/-- The pass once everything it reads is there. -/
def settle (pass : PassContext) (readings : Readings) (discovery : Discovery)
    (report : SyncReport) : Program (Except String SyncReport) :=
  (Prog.fold (syncer.visit pass readings) report discovery.items).bind
      fun report =>
    (withdrawUntagged readings.known (discovery.items.map (·.key))
        discovery.withdrawable pass.dryRun).bind fun unshared =>
      .done (.ok { report with unshared })

/-- Who the items are for, one source after the other. -/
def recordAudiences : List (MediaSource × SourceAudience) →
    Program (Except String Unit)
  | [] => .done (.ok ())
  | (kind, audience) :: audiences =>
    .call (.replaceAudience kind audience) fun replaced =>
      Prog.proceed (context ("recording who " ++ kind.asStr ++
          "'s items are for") (replaced.mapError syncer.printed)) fun _ =>
        recordAudiences audiences

/-- The reads a pass starts with, each as it was answered. -/
structure Reads where
  torrents : Except String (List TorrentSummary)
  items : Except StoreError (List SharedItem)
  stamps : Except StoreError (List (ItemKey × FileStamp))
  ends : Except StoreError (List (ItemKey × Int))
  origins : Except StoreError OriginTable

def readAll : Program Reads :=
  .call .list fun torrents =>
    .call .allItems fun items =>
      .call .fileStamps fun stamps =>
        .call .shareEnds fun ends =>
          .call .itemOrigins fun origins =>
            .done ⟨torrents, items, stamps, ends, origins⟩

/-- The pass after the audiences: the reads that failed stop it now. -/
def applyReads (announce : AnnounceSet) (dryRun : Bool)
    (discovery : Discovery) (reads : Reads) (ends : List (ItemKey × Int))
    (origins : OriginTable) (now : Int) (report : SyncReport) :
    Program (Except String SyncReport) :=
  Prog.proceed (context ("listing torrents in " ++ syncer.seeder.kind.asStr)
      reads.torrents) fun torrents =>
    Prog.proceed (reads.items.mapError syncer.printed) fun items =>
      let pass : PassContext :=
        ⟨announce, syncer.tokenFingerprint announce, torrents, origins,
          dryRun⟩
      syncer.settle pass
        ⟨ends, now, items.map folded, reads.stamps.toOption.getD []⟩
        discovery report

def nothingScanned : String :=
  "no library source could be scanned — nothing was changed"

def discoveryReport (discovery : Discovery) : SyncReport :=
  { SyncReport.default with
    discovered := discovery.items.length
    sourcesFailed := discovery.failures
    libraryUnreadable := discovery.libraryUnreadable }

/-- The pass after discovery and the reads. -/
def applyDiscovery (announce : AnnounceSet) (dryRun : Bool)
    (discovery : Discovery) (reads : Reads) :
    Program (Except String SyncReport) :=
  if discovery.scanned = [] then .done (.error nothingScanned)
  else
    Prog.proceed (context "reading share-until dates"
        (reads.ends.mapError syncer.printed)) fun ends =>
      Prog.proceed (context "reading which friends' swarms items joined"
          (reads.origins.mapError syncer.printed)) fun origins =>
        .call .nowEpoch fun now =>
          (if dryRun then .done (.ok ())
            else syncer.recordAudiences discovery.audiences).attempt fun _ =>
            syncer.applyReads announce dryRun discovery reads ends origins now
              (discoveryReport discovery)

def reconcile (dryRun : Bool) : Program (Except String SyncReport) :=
  (if dryRun then .done (.ok ()) else syncer.trackCapInForce).attempt fun _ =>
    .call .ensureReady fun ready =>
      Prog.proceed ready fun _ =>
        .call .announceSet fun announce =>
          Prog.proceed announce fun announce =>
            (discover syncer.sources).bind fun discovery =>
              readAll.bind fun reads =>
                syncer.applyDiscovery announce dryRun discovery reads

/-- The row a finished run leaves. -/
def runSummary : Except String SyncReport → RunSummary
  | .ok report => report.toSummary
  | .error reason => ⟨0, 0, 0, 0, some reason⟩

def run (dryRun : Bool) : Program (Except String SyncReport) :=
  if dryRun then syncer.reconcile true
  else
    .call .beginRun fun begun =>
      Prog.proceed (begun.mapError syncer.printed) fun runId =>
        (syncer.reconcile false).bind fun outcome =>
          .call (.finishRun runId (runSummary outcome)) fun _ => .done outcome

end Syncer

end Sharerr
