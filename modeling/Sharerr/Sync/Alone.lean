import Sharerr.Process.Solo
import Sharerr.Sync.Runs

/-!
# A pass run alone

One pass with the store and the client to itself.  What it cannot choose is
the environment: what the sources report, what lies on disk and in the cache
of `.torrent` files, what the factory builds, and the calls that fail.  What is
found for an item may differ from what is found for another, so a file that
appears while a pass runs is covered; an item reported twice finds the same
both times.
-/

namespace Sharerr

namespace Sync

open Process

/-- What answers the calls of a pass beside the store and the client's list.
`fault` names the calls to them that fail, with the detail of the error. -/
structure Environment where
  fault : Nat → Call → Option String
  announce : Except String AnnounceSet
  scan : MediaSource → Except String SourceScan
  valid : ∀ kind found, scan kind = .ok found → found.Valid kind
  order : List SharedItem → List SharedItem
  perm : ∀ items, (order items).Perm items
  now : Int
  minute : Nat → Nat
  clock : Nat → Int
  probe : ItemKey → String → Option MediaMeta
  there : ItemKey → String → Except String Bool
  stamp : ItemKey → String → Option FileStamp
  entries : ItemKey → List (Nat × CatalogEntry)
  files : ItemKey → String → List TorrentFileEntry
  exported : ItemKey → String → Option TorrentFile
  cached : ItemKey → String → Except String (Option TorrentFile)
  keep : ItemKey → String → Blocking Unit
  length : ItemKey → String → Except String Nat
  fetched : ItemKey → String → Except String FriendResponse
  verified : ItemKey → String → Torrent → Blocking Bool
  subtitles : ItemKey → String → List String
  create : ItemKey → TorrentRequest → Blocking BuiltTorrent
  createWith : ItemKey → SidecarRequest → Blocking BuiltTorrent

/-- What a failing call to the store or the client answers. -/
def failure (detail : String) : (request : Call) → Option (Answer request)
  | .beginRun => some (.error (.sql detail))
  | .finishRun _ _ => some (.error (.sql detail))
  | .ensureReady => some (.error detail)
  | .list => some (.error detail)
  | .setLimits _ _ => some (.error detail)
  | .remove _ => some (.error detail)
  | .allItems => some (.error (.sql detail))
  | .fileStamps => some (.error (.sql detail))
  | .shareEnds => some (.error (.sql detail))
  | .itemOrigins => some (.error (.sql detail))
  | .get _ => some (.error (.sql detail))
  | .upsert _ _ => some (.error (.sql detail))
  | .update _ _ => some (.error (.sql detail))
  | .setItemOrigin _ _ => some (.error (.sql detail))
  | .replaceAudience _ _ => some (.error (.sql detail))
  | .catalogMatches _ _ _ _ => some (.error (.sql detail))
  | .seedingItems _ => some (.error (.sql detail))
  | .audiences => some (.error (.sql detail))
  | .seeder _ (.files _) => some (.error detail)
  | .seeder _ (.add _) => some (.error detail)
  | .seeder _ (.addTrackers _ _) => some (.error detail)
  | .seeder _ (.setTrackers _ _) => some (.error detail)
  | .seeder _ (.export_ _) => some (.error detail)
  | _ => none

namespace Environment

variable (environment : Environment)

/-- The answers to the seeder, none of which depend on the store. -/
def seeder (key : ItemKey) : (request : Seeder.Call) → Seeder.Answer request
  | .files hash => .ok (environment.files key hash)
  | .add _ => .ok ()
  | .addTrackers _ _ => .ok ()
  | .setTrackers _ _ => .ok ()
  | .export_ hash => .ok (environment.exported key hash)
  | .readCached hash => environment.cached key hash
  | .writeCached hash _ => environment.keep key hash
  | .fileLength path => environment.length key path
  | .fetch url => environment.fetched key url
  | .verifySingleFile path torrent => environment.verified key path torrent
  | .subtitlesBeside path => environment.subtitles key path
  | .create request => environment.create key request
  | .createWithSidecars request => environment.createWith key request
  | .isConfirmed _ _ => false
  | .markConfirmed _ _ => ()

/-- The answer of a call that does not fail. -/
def answered (calls : Nat) (world : World) :
    (request : Call) → Answer request × World
  | .beginRun => (.ok calls, world)
  | .finishRun _ _ => (.ok (), world)
  | .minuteOfDay => (environment.minute calls, world)
  | .nowEpoch => (environment.now, world)
  | .storeClock => (environment.clock calls, world)
  | .trackCap cap => (.ok (), { world with limits := world.limits.track cap })
  | .limitsApplied hash =>
    (.ok (decide (hash ∈ world.limits.applied)), world)
  | .rememberLimits hash =>
    (.ok (), { world with limits :=
      { world.limits with applied := hash :: world.limits.applied } })
  | .ensureReady => (.ok (), world)
  | .announceSet => (environment.announce, world)
  | .discover kind => (environment.scan kind, world)
  | .list => (.ok world.client, world)
  | .setLimits _ _ => (.ok (), world)
  | .remove hash => (.ok (), world.remove hash)
  | .allItems => (.ok world.items.allItems, world)
  | .fileStamps => (.ok world.items.fileStamps, world)
  | .shareEnds => (.ok world.items.shareEnds, world)
  | .itemOrigins => (.ok world.origins, world)
  | .get key => (.ok (world.items.item? key), world)
  | .upsert item now => (.ok (), world.upsert item now)
  | .update key change => (.ok (), world.updateItem key change)
  | .setItemOrigin key origin => (.ok (), world.setItemOrigin key origin)
  | .replaceAudience kind audience =>
    (.ok (), world.replaceAudience kind audience)
  | .catalogMatches key _ _ _ => (.ok (environment.entries key), world)
  | .seedingItems scope => (.ok (world.items.seedingItems scope), world)
  | .audiences => (.ok world.audience, world)
  | .probe key path => (environment.probe key path, world)
  | .tryExists key path => (environment.there key path, world)
  | .fileStamp key path => (environment.stamp key path, world)
  | .iterate items => (environment.order items, world)
  | .seeder _ (.add request) => (.ok (), world.add request)
  | .seeder _ (.isConfirmed hash announce) =>
    (world.isConfirmed hash announce, world)
  | .seeder _ (.markConfirmed hash announce) =>
    ((), world.markConfirmed hash announce)
  | .seeder key request => (environment.seeder key request, world)
  | .edit torrents => ((), { world with client := torrents })
  | .renew => ((), { world with limits := ⟨[], none⟩, confirmed := [] })

def respond : Responder World Call Answer := fun calls world request =>
  match (environment.fault calls request).bind (failure · request) with
  | some answer => (answer, world)
  | none => environment.answered calls world request

variable {environment}

end Environment

section Responder

variable {thread calls : Nat} {environment : Environment} {world : World}
  {request : Call}

theorem perform_failure {detail : String} {answer : Answer request}
    (fails : failure detail request = some answer) :
    perform thread world request answer = some world := by
  cases request with
  | seeder key request => cases request <;> cases fails <;> rfl
  | _ => cases fails <;> rfl

theorem perform_answered :
    perform thread world request
        (environment.answered calls world request).1 =
      some (environment.answered calls world request).2 := by
  cases request with
  | discover kind =>
    simp only [perform, Environment.answered]
    cases scanned : environment.scan kind with
    | error reason => rfl
    | ok scan => simp [discovering, environment.valid kind scan scanned]
  | iterate items =>
    have same := List.isPerm_iff.mpr (environment.perm items)
    simp [perform, Environment.answered, same]
  | seeder key request =>
    cases request with
    | isConfirmed hash announce =>
      simp [perform, performSeeder, Environment.answered]
    | _ => rfl
  | _ => simp [perform, reading, writing, Environment.answered]

/-- An environment only gives answers the store and the client admit. -/
theorem perform_respond :
    perform thread world request
        (environment.respond calls world request).1 =
      some (environment.respond calls world request).2 := by
  simp only [Environment.respond]
  cases failed : (environment.fault calls request).bind
      (failure · request) with
  | none => exact perform_answered
  | some answer =>
    obtain ⟨detail, -, fails⟩ := Option.bind_eq_some_iff.mp failed
    exact perform_failure fails

end Responder

/-- A responder gives only answers the store and the client admit. -/
def Admitted (respond : Responder World Call Answer) : Prop :=
  ∀ calls world request,
    perform 0 world request (respond calls world request).1 =
      some (respond calls world request).2

theorem Environment.admitted (environment : Environment) :
    Admitted environment.respond :=
  fun _ _ _ => perform_respond

/-- Another environment from a number of calls on. -/
def switched (first second : Environment) (calls : Nat) :
    Responder World Call Answer :=
  fun made world request =>
    if made < calls then first.respond made world request
    else second.respond made world request

theorem admitted_switched (first second : Environment) (calls : Nat) :
    Admitted (switched first second calls) := by
  intro made world request
  unfold switched
  split
  · exact first.admitted made world request
  · exact second.admitted made world request

/-- The jobs of a syncer run alone are a run beside visitors who never get a
turn. -/
theorem run_of_alone {respond : Responder World Call Answer}
    (admitted : Admitted respond) (syncer : Syncer) (work : List (Job × Nat))
    (visitors : Nat → Visitor) (world : World) :
    Run perform .always (start syncer work visitors world)
      ((syncer.jobs work).told respond 0 0 world)
      ((start syncer work visitors world).put 0
        ((syncer.jobs work).alone respond 0 world).world
        (.done .finished)) := by
  have first : (start syncer work visitors world).threads 0 =
      (syncer.jobs work).bind fun _ => .done .finished := rfl
  have nothing : Run perform .always (start syncer work visitors world) []
      (start syncer work visitors world) := .start
  have run := Run.of_alone admitted nothing 0
  rw [first, Prog.told_bind, Prog.alone_bind, Prog.told, List.append_nil,
    List.nil_append] at run
  exact run

def nobody : Nat → Visitor := fun _ => .edits []

/-- A syncer of one film library whose paths need no mapping. -/
def smallSyncer : Syncer where
  sources := [.radarr]
  distinct := by decide
  seeder := homeSeeder
  resolveFor := fun _ path => .ok ⟨path, path, path, false⟩
  resolveTitle := fun item => item.arrPath
  fingerprint := id
  close := fun left right => left == right
  printed := fun
    | .sql detail => detail
    | _ => ""

def film (fileId : Int) : Discovered where
  source := .radarr
  sourceId := 7
  fileId := fileId
  spec := .movie "Alphaville" (some 1965)
  arrPath := "/films/alphaville.mkv"
  size := 4096
  ids := ⟨none, none, none, none, none, none, none, none⟩
  sceneName := none
  originalPath := none
  media := none
  scene := none

theorem first_film_source : (film 1).source = .radarr := rfl

theorem valid_single {item : Discovered} (own : item.source = .radarr) :
    SourceScan.Valid ⟨[item], true, []⟩ .radarr :=
  ⟨by simpa using own, List.nodup_nil, by simp⟩

theorem valid_film : SourceScan.Valid ⟨[film 1], true, []⟩ .radarr :=
  valid_single first_film_source

theorem valid_none : SourceScan.Valid ⟨[], true, []⟩ .radarr :=
  ⟨by simp, List.nodup_nil, by simp⟩

/-- Where the small library's tracker announces. -/
def smallAnnounce : AnnounceSet := ⟨["http://home/announce"], by decide⟩

def filmHash : String := "5f3c9b1e7a2d4086b9c1e2f3a4d5b6c7d8e9f0a1"

/-- The torrent the factory builds for the film. -/
def filmTorrent : Torrent where
  announce := some "http://home/announce"
  announceList := none
  info := ⟨filmHash, none, some "alphaville.mkv", none, 4096, true⟩

/-- The small library's disk and factory, with what its source reports and the
calls that fail. -/
def Environment.small (fault : Call → Option String)
    (scan : SourceScan) (valid : scan.Valid .radarr) : Environment where
  fault := fun _ request => fault request
  announce := .ok smallAnnounce
  scan := fun
    | .radarr => .ok scan
    | _ => .error "no such source"
  valid := by
    intro kind found reported
    cases kind with
    | radarr =>
      cases reported
      exact valid
    | _ => cases reported
  order := id
  perm := fun _ => .refl _
  now := 1700000000
  minute := fun _ => 720
  clock := fun calls => 1700000000 + calls
  probe := fun _ _ => none
  there := fun _ _ => .ok true
  stamp := fun _ _ => none
  entries := fun _ => []
  files := fun _ _ => []
  exported := fun _ _ => none
  cached := fun _ _ => .ok (some filmTorrent.encode)
  keep := fun _ _ => .finished ()
  length := fun _ _ => .ok 4096
  fetched := fun _ _ => .error "connection refused"
  verified := fun _ _ _ => .finished false
  subtitles := fun _ _ => []
  create := fun _ _ => .finished ⟨filmHash, none, filmTorrent.encode, 4096⟩
  createWith := fun _ _ => .failed "not a directory"

/-- The small library after the film lost its tag. -/
def untaggedFilm : Environment :=
  .small (fun _ => none) ⟨[], true, []⟩ valid_none

end Sync

end Sharerr
