import Sharerr.Process.Safety
import Sharerr.Sync.Pass

/-!
# What the calls of a pass do to the shares

Most calls of a pass leave every share as it is: they read, or they write what
no share depends on.  The programs below make no others.
-/

namespace Sharerr

/-- What a row says about its share: the state, the hash, and whether sharerr
added the torrent. -/
structure Share where
  state : ShareState
  infoHash : Option String
  created : Bool
deriving DecidableEq, Repr

def ItemRow.share (row : ItemRow) : Share :=
  ⟨row.state, row.infoHash, row.createdBySharerr⟩

/-- The updates that leave the share alone. -/
def ItemUpdate.IsNote : ItemUpdate → Prop
  | .setState .. | .setSeeding .. | .resetForRebuild => False
  | _ => True

theorem ItemUpdate.IsNote.share {update : ItemUpdate} (note : update.IsNote)
    (row : ItemRow) : (update.apply row).share = row.share := by
  cases update <;> first | rfl | exact note.elim

/-- The requests of the seeder that neither add nor adopt a torrent. -/
def Seeder.Call.IsQuiet : Seeder.Call → Prop
  | .add _ | .addTrackers .. => False
  | _ => True

/-- The quiet requests that read no whole file. -/
def Seeder.Call.IsIdle : Seeder.Call → Prop
  | .add _ | .addTrackers .. | .create _ | .createWithSidecars _
  | .verifySingleFile .. => False
  | _ => True

/-- The requests that only look. -/
def Seeder.Call.Looks : Seeder.Call → Prop
  | .files _ | .export_ _ | .readCached _ | .fileLength _
  | .subtitlesBeside _ => True
  | _ => False

theorem Seeder.Call.Looks.idle {request : Seeder.Call}
    (looks : request.Looks) : request.IsIdle := by
  cases request with
  | files | export_ | readCached | fileLength | subtitlesBeside => trivial
  | _ => exact looks.elim

theorem Seeder.Call.IsIdle.quiet {request : Seeder.Call}
    (idle : request.IsIdle) : request.IsQuiet := by
  cases request with
  | add | addTrackers => exact idle.elim
  | _ => trivial

namespace Seeder

open Process (Prog)
open Process.Prog (Only)

theorem searchFiles_looks (target : String)
    (torrents : List TorrentSummary) :
    (searchFiles target torrents).Only Call.Looks := by
  induction torrents with
  | nil => trivial
  | cons torrent torrents ih =>
    refine ⟨trivial, fun answer => ?_⟩
    cases answer with
    | error reason => exact ih
    | ok files =>
      dsimp only
      split
      · trivial
      · exact ih

theorem findExisting_looks (torrents : List TorrentSummary)
    (target : String) :
    (findExisting torrents target).Only Call.Looks := by
  unfold findExisting
  split
  · trivial
  · exact searchFiles_looks target _

theorem findExisting_idle (torrents : List TorrentSummary)
    (target : String) :
    (findExisting torrents target).Only Call.IsIdle :=
  (findExisting_looks ..).mono fun _ => Call.Looks.idle

variable (seeder : Seeder)

theorem storeAdopted_idle (infoHash : String) (rewritten : TorrentFile)
    (actual : String) (upstream : List String) :
    (seeder.storeAdopted infoHash rewritten actual upstream).Only
      Call.IsIdle := by
  unfold storeAdopted
  split
  · exact ⟨trivial, fun _ => Only.proceed _ fun _ => trivial⟩
  · trivial

theorem adoptBytes_idle (infoHash : String) (announce : AnnounceSet)
    (fromCache : Bool) (bytes : TorrentFile) :
    (seeder.adoptBytes infoHash announce fromCache bytes).Only
      Call.IsIdle := by
  apply Only.proceed
  intro outcome
  cases outcome with
  | current torrent =>
    dsimp only
    split
    · trivial
    · exact seeder.storeAdopted_idle ..
  | updated previous torrent data => exact seeder.storeAdopted_idle ..

theorem fileAdopted_idle (infoHash : String) (announce : AnnounceSet) :
    (seeder.fileAdopted infoHash announce).Only Call.IsIdle := by
  refine ⟨trivial, fun read => ?_⟩
  apply Only.proceed
  intro cached
  cases cached with
  | some data => exact seeder.adoptBytes_idle ..
  | none =>
    refine ⟨trivial, fun exported => ?_⟩
    apply Only.proceed
    intro exported
    cases exported with
    | none => trivial
    | some data => exact seeder.adoptBytes_idle ..

theorem sumLengths_looks (dir : String) (total : Nat) (names : List String) :
    (sumLengths dir total names).Only Call.Looks := by
  induction names generalizing total with
  | nil => trivial
  | cons name names ih =>
    exact ⟨trivial, fun _ => Only.proceed _ fun _ => ih _⟩

theorem contentSize_looks (path : String) (files : List String) :
    (contentSize path files).Only Call.Looks := by
  cases files with
  | nil => exact ⟨trivial, fun _ => trivial⟩
  | cons name names => exact sumLengths_looks ..

theorem cachedSizeIsStale_looks (path : String) (files : List String)
    (length : Nat) :
    (cachedSizeIsStale path files length).Only Call.Looks := by
  apply (contentSize_looks path files).bind
  intro size
  cases size <;> trivial

theorem reuseCached_idle (known : Option String) (announce : AnnounceSet)
    (paths : ResolvedPaths) :
    (reuseCached known announce paths).Only Call.IsIdle := by
  cases known with
  | none => trivial
  | some hash =>
    refine ⟨trivial, fun read => ?_⟩
    match read with
    | .error _ | .ok none => trivial
    | .ok (some data) =>
      dsimp only
      split
      · trivial
      · apply ((cachedSizeIsStale_looks ..).mono fun _ => Call.Looks.idle).bind
        intro stale
        cases stale with
        | true => trivial
        | false =>
          dsimp only
          split
          · trivial
          · exact ⟨trivial, fun _ => trivial⟩

theorem keepFriendTorrent_idle (announce : AnnounceSet) (peerId : Nat)
    (bytes : TorrentFile) (torrent : Torrent) :
    (seeder.keepFriendTorrent announce peerId bytes torrent).Only
      Call.IsIdle := by
  apply Only.proceed
  intro cached
  refine ⟨trivial, fun wrote => ?_⟩
  apply Only.proceed
  intro _
  exact Only.proceed _ fun _ => trivial

theorem fetchFromFriend_quiet (paths : ResolvedPaths)
    (announce : AnnounceSet) (peerId : Nat) (entry : CatalogEntry) :
    (seeder.fetchFromFriend paths announce peerId entry).Only
      Call.IsQuiet := by
  refine ⟨trivial, fun response => ?_⟩
  apply Only.proceed
  intro response
  apply Only.proceed
  intro read
  dsimp only
  split
  · trivial
  · split
    · trivial
    · refine ⟨trivial, fun verified => ?_⟩
      apply Only.proceed
      intro verified
      cases verified with
      | false => trivial
      | true =>
        apply (seeder.keepFriendTorrent_idle announce peerId ..).mono
        exact fun _ idle => idle.quiet

theorem fetchFromFriends_quiet (paths : ResolvedPaths)
    (announce : AnnounceSet) (entries : List (Nat × CatalogEntry)) :
    (seeder.fetchFromFriends paths announce entries).Only Call.IsQuiet := by
  induction entries with
  | nil => trivial
  | cons entry entries ih =>
    apply (seeder.fetchFromFriend_quiet ..).bind
    intro fetched
    match fetched with
    | .ok (some found) => trivial
    | .ok none | .error _ => exact ih

theorem sidecarsFor_looks (paths : ResolvedPaths) (rootName : Option String) :
    (seeder.sidecarsFor paths rootName).Only Call.Looks := by
  unfold sidecarsFor
  split
  · exact ⟨trivial, fun _ => trivial⟩
  · trivial

theorem build_quiet (paths : ResolvedPaths) (announce : AnnounceSet)
    (media : Option MediaMeta) :
    (seeder.build paths announce media).Only Call.IsQuiet := by
  have creating : ∀ rootName sidecars, (seeder.createTorrent paths announce
      media rootName sidecars).Only Call.IsQuiet := by
    intro rootName sidecars
    unfold createTorrent
    dsimp only
    split <;> exact ⟨trivial, fun _ => trivial⟩
  apply ((seeder.sidecarsFor_looks ..).mono
    fun _ looks => looks.idle.quiet).bind
  intro sidecars
  apply (creating _ sidecars).bind
  intro built
  apply Only.proceed
  intro built
  exact ⟨trivial, fun _ => trivial⟩

theorem acquire_quiet (paths : ResolvedPaths) (announce : AnnounceSet)
    (known : Option String) (media : Option MediaMeta)
    (friends : FriendTorrents) :
    (seeder.acquire paths announce known media friends).Only
      Call.IsQuiet := by
  apply ((reuseCached_idle ..).mono fun _ => Call.IsIdle.quiet).bind
  intro cached
  match cached with
  | some (hash, data) =>
    dsimp only
    split
    · exact Only.proceed _ fun _ => trivial
    · trivial
  | none =>
    apply (seeder.fetchFromFriends_quiet ..).bind
    intro fetched
    match fetched with
    | some (hash, data, origin) => trivial
    | none => exact (seeder.build_quiet ..).attempt fun _ => trivial

theorem refreshAnnounce_quiet (infoHash : String) (announce : AnnounceSet)
    (upstream : List String) :
    (seeder.refreshAnnounce infoHash announce upstream).Only
      Call.IsQuiet := by
  refine ⟨trivial, fun confirmed => ?_⟩
  cases confirmed with
  | true => trivial
  | false =>
    refine ⟨trivial, fun read => ?_⟩
    apply Only.proceed
    intro cached
    cases cached with
    | none => trivial
    | some data =>
      apply Only.proceed
      intro outcome
      cases outcome with
      | current torrent => exact ⟨trivial, fun _ => trivial⟩
      | updated previous torrent rewritten =>
        refine ⟨trivial, fun set => ?_⟩
        apply Only.proceed
        intro _
        refine ⟨trivial, fun wrote => ?_⟩
        apply Only.proceed
        intro _
        exact ⟨trivial, fun _ => trivial⟩

theorem recoverUpstream_looks (infoHash : String) (announce : AnnounceSet) :
    (seeder.recoverUpstream infoHash announce).Only Call.Looks := by
  refine ⟨trivial, fun exported => ?_⟩
  apply Only.proceed
  intro exported
  cases exported with
  | none => trivial
  | some exported =>
    apply Only.proceed
    intro exported
    exact ⟨trivial, fun _ => Only.proceed _ fun _ => trivial⟩

end Seeder

namespace Sync

/-- The calls that leave the shares, the audiences and the torrents of the
client alone, and are not discoveries. -/
def Call.IsQuiet : Call → Prop
  | .upsert .. | .remove _ | .replaceAudience .. | .discover _ | .edit _ =>
    False
  | .update _ change => change.IsNote
  | .seeder _ request => request.IsQuiet
  | _ => True

/-- The share recorded for an item. -/
def World.share? (world : World) (key : ItemKey) : Option Share :=
  (world.items.row? key).map ItemRow.share

theorem share?_updateItem (world : World) (key other : ItemKey)
    (update : ItemUpdate) :
    (world.updateItem key update).share? other =
      if other = key then
        (world.items.row? other).map fun row => (update.apply row).share
      else world.share? other := by
  simp only [World.share?, World.updateItem, ItemTable.row?_update]
  split
  · rw [Option.map_map]
    rfl
  · rfl

theorem share?_updateItem_note (world : World) (key : ItemKey)
    {update : ItemUpdate} (note : update.IsNote) :
    (world.updateItem key update).share? = world.share? := by
  funext other
  rw [share?_updateItem]
  split
  · simp only [note.share]
    rfl
  · rfl

/-- Recording a discovered item puts it into state Pending and leaves its
torrent alone. -/
theorem share?_upsert (world : World) (item : Discovered) (title : String)
    (now : Int) (other : ItemKey) :
    (world.upsert (item.intoSharedItem title) now).share? other =
      if other = item.key then
        some (((world.share? other).map fun share =>
          { share with state := .pending }).getD ⟨.pending, none, false⟩)
      else world.share? other := by
  have key : (item.intoSharedItem title).key = item.key := rfl
  simp only [World.share?, World.upsert, ItemTable.row?_upsert]
  by_cases same : other = item.key
  · rw [if_pos (same.trans key.symm), if_pos same]
    cases world.items.row? other <;> rfl
  · rw [if_neg (key ▸ same), if_neg same]

variable {world after : World}

variable {ε : Type} {request : Call} {answer : Answer request}

theorem reading_eq_some {α : Type} [DecidableEq α] {truth : α}
    {answer : Except ε α} (read : reading world truth answer = some after) :
    after = world := by
  cases answer with
  | error reason => exact (Option.some.inj read).symm
  | ok value =>
    simp only [reading] at read
    split at read
    · exact (Option.some.inj read).symm
    · cases read

theorem value_of_reading {α : Type} [DecidableEq α] {truth value : α}
    (read : reading (ε := ε) world truth (.ok value) = some after) :
    value = truth := by
  simp only [reading] at read
  split at read
  · assumption
  · cases read

theorem writing_eq_some {written : World} {answer : Except ε Unit}
    (wrote : writing world written answer = some after) :
    after = world ∨ after = written := by
  cases answer with
  | error reason => exact .inl (Option.some.inj wrote).symm
  | ok _ => exact .inr (Option.some.inj wrote).symm

/-- A quiet request of the seeder changes at most what is confirmed. -/
theorem performSeeder_quiet {request : Seeder.Call}
    {answer : Seeder.Answer request} (quiet : request.IsQuiet)
    (performed : performSeeder world request answer = some after) :
    after.items = world.items ∧ after.audience = world.audience := by
  cases request with
  | add | addTrackers => exact quiet.elim
  | isConfirmed infoHash announce =>
    simp only [performSeeder] at performed
    split at performed
    · cases performed
    · cases performed
      exact ⟨rfl, rfl⟩
  | _ =>
    cases performed
    exact ⟨rfl, rfl⟩

/-- A quiet call leaves every share and every audience as it is. -/
theorem perform_quiet (thread : Nat) (quiet : request.IsQuiet)
    (performed : perform thread world request answer = some after) :
    after.share? = world.share? ∧ after.audience = world.audience := by
  cases request with
  | upsert | remove | replaceAudience | discover | edit => exact quiet.elim
  | update key update =>
    rcases writing_eq_some performed with rfl | rfl
    · exact ⟨rfl, rfl⟩
    · exact ⟨share?_updateItem_note world key quiet, rfl⟩
  | seeder key request =>
    obtain ⟨items, audience⟩ := performSeeder_quiet quiet performed
    refine ⟨?_, audience⟩
    funext other
    simp only [World.share?, items]
  | trackCap | rememberLimits | setItemOrigin =>
    rcases writing_eq_some performed with rfl | rfl <;> exact ⟨rfl, rfl⟩
  | limitsApplied | list | allItems | fileStamps | shareEnds | itemOrigins
  | get | seedingItems | audiences =>
    rw [reading_eq_some performed]
    exact ⟨rfl, rfl⟩
  | iterate items =>
    simp only [perform] at performed
    split at performed
    · cases performed
      exact ⟨rfl, rfl⟩
    · cases performed
  | _ =>
    cases performed
    exact ⟨rfl, rfl⟩

/-- The calls that write to the table of items. -/
def Call.Writes : Call → Prop
  | .upsert .. | .update .. => True
  | _ => False

theorem performSeeder_items {request : Seeder.Call}
    {answer : Seeder.Answer request}
    (performed : performSeeder world request answer = some after) :
    after.items = world.items := by
  cases request with
  | add request =>
    rcases writing_eq_some performed with rfl | rfl
    · rfl
    · unfold World.add
      split <;> rfl
  | addTrackers =>
    cases performed
    rfl
  | _ =>
    refine (performSeeder_quiet ?_ performed).1
    trivial

/-- Every other call leaves the items as they are. -/
theorem perform_items (thread : Nat) (reads : ¬ request.Writes)
    (performed : perform thread world request answer = some after) :
    after.items = world.items := by
  cases request with
  | upsert | update => exact absurd trivial reads
  | seeder key request => exact performSeeder_items performed
  | trackCap | rememberLimits | setItemOrigin | replaceAudience | remove =>
    rcases writing_eq_some performed with rfl | rfl <;> rfl
  | limitsApplied | list | allItems | fileStamps | shareEnds | itemOrigins
  | get | seedingItems | audiences => rw [reading_eq_some performed]
  | discover kind =>
    unfold perform discovering at performed
    cases answer with
    | error reason =>
      cases performed
      rfl
    | ok scan =>
      dsimp only at performed
      split at performed
      · cases performed
        rfl
      · cases performed
  | iterate items =>
    simp only [perform] at performed
    split at performed
    · cases performed
      rfl
    · cases performed
  | _ =>
    cases performed
    rfl

/-- What every write keeps of the rows, every call keeps. -/
theorem forall_rows_of_performed (thread : Nat) {good : ItemRow → Prop}
    (renewed : ∀ item now, request = .upsert item now → ∀ row,
      row.key = item.key → good row → good (row.rediscovered item))
    (recorded : ∀ item now, request = .upsert item now → ∀ id,
      good (item.newRow id now))
    (updated : ∀ key update, request = .update key update →
      ∀ row ∈ world.items.rows, row.key = key → good row →
        good (update.apply row))
    (performed : perform thread world request answer = some after)
    (all : ∀ row ∈ world.items.rows, good row) :
    ∀ row ∈ after.items.rows, good row := by
  by_cases writes : request.Writes
  · cases request with
    | upsert item now =>
      rcases writing_eq_some performed with rfl | rfl
      · exact all
      · exact ItemTable.forall_upsert all
          (fun row _ => renewed item now rfl row) (recorded item now rfl _)
    | update key update =>
      rcases writing_eq_some performed with rfl | rfl
      · exact all
      · exact ItemTable.forall_update all (updated key update rfl)
    | _ => exact writes.elim
  · rwa [perform_items thread writes performed]

end Sync

namespace Sync

variable {request : Call}

/-- The calls that look at the file of an item. -/
def Call.Probes : Call → Prop
  | .probe .. | .tryExists .. | .fileStamp .. => True
  | _ => False

/-- The calls about the limits in force. -/
def Call.Limits : Call → Prop
  | .minuteOfDay | .trackCap _ | .limitsApplied _ | .rememberLimits _
  | .setLimits .. => True
  | _ => False

/-- The calls of `watch`, and of the search for the trackers a torrent has
besides ours. -/
def Call.Notes : Call → Prop
  | .seeder _ request => request.Looks
  | .fileStamp .. | .setItemOrigin .. | .update _ (.setFileStamp _) => True
  | _ => False

/-- The calls of `recordIdentity`. -/
def Call.Identifies : Call → Prop
  | .setItemOrigin .. | .update _ (.setFileStamp _)
  | .update _ (.setInfoHashV2 _) => True
  | _ => False

/-- The calls that end shares. -/
def Call.Withdraws : Call → Prop
  | .get _ | .iterate _ | .remove _ | .setItemOrigin ..
  | .update _ .resetForRebuild => True
  | .update _ (.setState state _) => state ≠ .seeding
  | _ => False

theorem Call.Probes.quiet (probes : request.Probes) : request.IsQuiet := by
  cases request with
  | probe | tryExists | fileStamp => trivial
  | _ => exact probes.elim

theorem Call.Limits.quiet (limits : request.Limits) : request.IsQuiet := by
  cases request with
  | minuteOfDay | trackCap | limitsApplied | rememberLimits | setLimits =>
    trivial
  | _ => exact limits.elim

theorem Call.Notes.quiet (notes : request.Notes) : request.IsQuiet := by
  cases request with
  | seeder key request => exact Seeder.Call.Looks.idle notes |>.quiet
  | fileStamp | setItemOrigin => trivial
  | update key change =>
    cases change with
    | setFileStamp => trivial
    | _ => exact notes.elim
  | _ => exact notes.elim

theorem Call.Identifies.quiet (identifies : request.Identifies) :
    request.IsQuiet := by
  cases request with
  | setItemOrigin => trivial
  | update key change =>
    cases change with
    | setFileStamp | setInfoHashV2 => trivial
    | _ => exact identifies.elim
  | _ => exact identifies.elim

end Sync

namespace Syncer

open Process (Prog)
open Process.Prog (Only)
open Sync

theorem forItem_quiet {α : Type} (key : ItemKey) {program : Seeder.Program α}
    (quiet : program.Only Seeder.Call.IsQuiet) :
    (forItem key program).Only Call.IsQuiet :=
  quiet.lift fun _ quiet => quiet

variable (syncer : Syncer)

theorem trackCapInForce_limits : syncer.trackCapInForce.Only Call.Limits :=
  ⟨trivial, fun _ => ⟨trivial, fun _ => trivial⟩⟩

theorem rememberLimits_limits (hash : String) (applied : Bool) :
    (rememberLimits hash applied).Only Call.Limits :=
  ⟨trivial, fun _ => Only.proceed _ fun _ => trivial⟩

theorem reconcileLimits_limits (hash : String) (reported : TorrentSummary) :
    (syncer.reconcileLimits hash reported).Only Call.Limits := by
  refine ⟨trivial, fun applied => ?_⟩
  apply Only.proceed
  intro applied
  cases applied with
  | true => trivial
  | false =>
    refine ⟨trivial, fun minute => ?_⟩
    dsimp only
    split
    · exact rememberLimits_limits hash false
    · refine ⟨trivial, fun set => ?_⟩
      apply Only.proceed
      intro _
      exact rememberLimits_limits hash true

theorem ratioLimitOf_limits (known : SharedItem) (hash : String)
    (reported : TorrentSummary) :
    (syncer.ratioLimitOf known hash reported).Only Call.Limits := by
  unfold ratioLimitOf
  split
  · apply (syncer.reconcileLimits_limits hash reported).bind
    intro applied
    split <;> trivial
  · trivial

theorem upstreamOf_notes (pass : PassContext) (key : ItemKey)
    (known : SharedItem) (hash : String) :
    (syncer.upstreamOf pass key known hash).Only Call.Notes := by
  unfold upstreamOf
  split
  · trivial
  · split
    · trivial
    · have asking : (forItem key (syncer.seeder.recoverUpstream hash
          pass.announce)).Only Call.Notes :=
        (syncer.seeder.recoverUpstream_looks ..).lift fun _ looks => looks
      apply asking.bind
      intro upstream
      cases upstream with
      | error reason => trivial
      | ok upstream => exact ⟨trivial, fun _ => trivial⟩

theorem confirmLive_quiet (pass : PassContext) (key : ItemKey)
    (known : SharedItem) (hash : String) (reported : TorrentSummary) :
    (syncer.confirmLive pass key known hash reported).Only Call.IsQuiet := by
  apply ((syncer.upstreamOf_notes ..).mono fun _ => Call.Notes.quiet).bind
  intro upstream
  apply ((syncer.ratioLimitOf_limits ..).mono fun _ => Call.Limits.quiet).bind
  intro ratioLimit
  apply (forItem_quiet key (syncer.seeder.refreshAnnounce_quiet ..)).bind
  intro refreshed
  split <;> exact ⟨trivial, fun _ => trivial⟩

theorem withMedia_probes (item : Discovered) :
    (syncer.withMedia item).Only Call.Probes := by
  unfold withMedia
  split
  · exact ⟨trivial, fun _ => trivial⟩
  · trivial

theorem locate_probes (item : Discovered) :
    (syncer.locate item).Only Call.Probes := by
  apply Only.proceed
  intro paths
  refine ⟨trivial, fun there => ?_⟩
  dsimp only
  split <;> trivial

theorem currentStamp_probes (item : Discovered) :
    (syncer.currentStamp item).Only Call.Probes := by
  unfold currentStamp
  split
  · trivial
  · exact ⟨trivial, fun _ => trivial⟩

theorem recordIdentity_identifies (key : ItemKey) (entry : Recorded) :
    (syncer.recordIdentity key entry).Only Call.Identifies := by
  unfold recordIdentity
  dsimp only
  split
  · exact ⟨trivial, fun _ => Only.proceed _ fun _ =>
      ⟨trivial, fun _ => trivial⟩⟩
  · refine ⟨trivial, fun _ => Only.proceed _ fun _ => ?_⟩
    exact ⟨trivial, fun _ => Only.proceed _ fun _ =>
      ⟨trivial, fun _ => trivial⟩⟩

theorem watchFile_notes (pass : PassContext) (item : Discovered)
    (stamps : List (ItemKey × FileStamp)) (report : SyncReport)
    (flagged : Flagged) :
    (syncer.watchFile pass item stamps report flagged).Only Call.Notes := by
  have stamping : (syncer.currentStamp item).Only Call.Notes := by
    unfold currentStamp
    split
    · trivial
    · exact ⟨trivial, fun _ => trivial⟩
  apply stamping.bind
  intro now
  cases now with
  | none => trivial
  | some now =>
    dsimp only
    split
    · trivial
    · split
      · trivial
      · exact ⟨trivial, fun _ => trivial⟩

theorem watch_notes (pass : PassContext) (item : Discovered)
    (known : Option SharedItem) (stamps : List (ItemKey × FileStamp))
    (report : SyncReport) :
    (syncer.watch pass item known stamps report).Only Call.Notes := by
  unfold watch
  split
  · split
    · dsimp only
      split
      · trivial
      · exact syncer.watchFile_notes ..
    · trivial
  · trivial

theorem trackCapInForce_quiet : syncer.trackCapInForce.Only Call.IsQuiet :=
  syncer.trackCapInForce_limits.mono fun _ => Call.Limits.quiet

theorem withMedia_quiet (item : Discovered) :
    (syncer.withMedia item).Only Call.IsQuiet :=
  (syncer.withMedia_probes item).mono fun _ => Call.Probes.quiet

theorem locate_quiet (item : Discovered) :
    (syncer.locate item).Only Call.IsQuiet :=
  (syncer.locate_probes item).mono fun _ => Call.Probes.quiet

theorem recordIdentity_quiet (key : ItemKey) (entry : Recorded) :
    (syncer.recordIdentity key entry).Only Call.IsQuiet :=
  (syncer.recordIdentity_identifies key entry).mono
    fun _ => Call.Identifies.quiet

theorem watch_quiet (pass : PassContext) (item : Discovered)
    (known : Option SharedItem) (stamps : List (ItemKey × FileStamp))
    (report : SyncReport) :
    (syncer.watch pass item known stamps report).Only Call.IsQuiet :=
  (syncer.watch_notes ..).mono fun _ => Call.Notes.quiet

theorem removeOwn_withdraws (item : SharedItem) :
    (removeOwn item).Only Call.Withdraws := by
  unfold removeOwn
  split
  · exact ⟨trivial, fun _ => trivial⟩
  · trivial

theorem unshareOne_withdraws (item : SharedItem) :
    (unshareOne item).Only Call.Withdraws := by
  apply (removeOwn_withdraws item).bind
  intro _
  refine ⟨?_, fun _ => trivial⟩
  show ShareState.unshared ≠ .seeding
  decide

theorem prepareRebuild_withdraws (item : SharedItem) :
    (prepareRebuild item).Only Call.Withdraws :=
  (removeOwn_withdraws item).bind fun _ => ⟨trivial, fun _ =>
    Only.proceed _ fun _ => ⟨trivial, fun _ => trivial⟩⟩

theorem withdrawUntagged_withdraws (known : List SharedItem)
    (tagged : List ItemKey) (withdrawable : List MediaSource)
    (dryRun : Bool) :
    (withdrawUntagged known tagged withdrawable dryRun).Only
      Call.Withdraws := by
  refine ⟨trivial, fun order => ?_⟩
  apply Only.fold
  intro count item _
  split
  · trivial
  · apply (unshareOne_withdraws item).bind
    intro done
    split <;> trivial

theorem endShare_withdraws (pass : PassContext) (known : Option SharedItem)
    (report : SyncReport) :
    (endShare pass known report).Only Call.Withdraws := by
  unfold endShare
  split
  · trivial
  · split
    · trivial
    · split
      · trivial
      · apply (unshareOne_withdraws _).bind
        intro done
        split <;> trivial

theorem recordFailure_withdraws (pass : PassContext) (key : ItemKey)
    (reason : String) (report : SyncReport) :
    (recordFailure pass key reason report).Only Call.Withdraws := by
  unfold recordFailure
  dsimp only
  split
  · trivial
  · refine ⟨?_, fun _ => trivial⟩
    show ShareState.failed ≠ .seeding
    decide

end Syncer

end Sharerr
