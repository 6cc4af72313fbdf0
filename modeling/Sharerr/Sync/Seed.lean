import Sharerr.Client.Torrents
import Sharerr.Process.Program
import Sharerr.Rust.Path

/-!
# Handing content to the torrent client

`Seeder` decides under which torrent a file is seeded: one the client already
has for it, a friend's, the one cached for it, or a new one.  Its programs are
over single requests to the client, single accesses to the cache of
`.torrent` files and single readings of the disk, whose answers are left open.
-/

namespace Sharerr

structure ResolvedPaths where
  arr : String
  sharerr : String
  qbit : String
  mappingApplied : Bool
deriving DecidableEq, Repr

structure QuietHours where
  start : Nat
  end_ : Nat
deriving DecidableEq, Repr

def QuietHours.contains (window : QuietHours) (minuteOfDay : Nat) : Bool :=
  if window.start < window.end_ then
    window.start ≤ minuteOfDay && minuteOfDay < window.end_
  else window.start ≤ minuteOfDay || minuteOfDay < window.end_

structure SeedingConfig where
  uploadLimitKib : Option Nat
  ratioLimit : Option Ratio
  isPrivate : Bool
  hybrid : Bool
  quietHours : Option QuietHours
  quietUploadLimitKib : Option Nat
deriving DecidableEq, Repr

def SeedingConfig.uploadLimitAt (config : SeedingConfig)
    (minuteOfDay : Nat) : Option Nat :=
  match config.quietHours, config.quietUploadLimitKib,
      config.uploadLimitKib with
  | some window, some quiet, some normal =>
    if window.contains minuteOfDay then some quiet else some normal
  | _, _, _ => config.uploadLimitKib

structure BuiltTorrent where
  infoHash : String
  infoHashV2 : Option String
  data : TorrentFile
  size : Nat
deriving DecidableEq, Repr

structure TorrentRequest where
  path : String
  announce : AnnounceSet
  media : Option MediaMeta
  isPrivate : Bool
  hybrid : Bool
deriving DecidableEq, Repr

structure SidecarRequest where
  path : String
  sidecars : List String
  rootName : String
  announce : AnnounceSet
  media : Option MediaMeta
  isPrivate : Bool
deriving DecidableEq, Repr

/-- What becomes of work handed to a blocking thread. -/
inductive Blocking (α : Type) where
  | panicked (reason : String)
  | failed (reason : String)
  | finished (value : α)
deriving DecidableEq, Repr

/-- The result of the work, under the two contexts its failures get. -/
def Blocking.result {α : Type} (panic failure : String) :
    Blocking α → Except String α
  | .panicked reason => .error (panic ++ ": " ++ reason)
  | .failed reason => .error (failure ++ ": " ++ reason)
  | .finished value => .ok value

theorem Blocking.eq_finished_of_result {α : Type} {panic failure : String}
    {work : Blocking α} {value : α}
    (ended : work.result panic failure = .ok value) :
    work = .finished value := by
  cases work with
  | finished result => exact congrArg _ (Except.ok.inj ended)
  | _ => cases ended

/-- A friend's answer to a download: the announced length, then the body with
its own length, if it reads. -/
structure FriendResponse where
  contentLength : Option Nat
  body : Except String (Nat × TorrentFile)

structure FriendTorrents where
  matches_ : List (Nat × CatalogEntry)
  joined : Option ItemOrigin

structure AddedTorrent where
  isPrivate : Bool
  infoHashV2 : Option String
deriving DecidableEq, Repr

inductive AnnounceRefresh where
  | current
  | updated
  | noCachedTorrent
deriving DecidableEq, Repr

inductive SeedOutcome where
  | reused (infoHash : String) (upstream : List String)
  | added (infoHash : String) (isPrivate : Bool)
      (infoHashV2 : Option String)
  | joined (infoHash : String) (origin : ItemOrigin)
      (added : Option AddedTorrent)
deriving DecidableEq, Repr

def SeedOutcome.infoHash : SeedOutcome → String
  | .reused infoHash _ => infoHash
  | .added infoHash _ _ => infoHash
  | .joined infoHash _ _ => infoHash

/-- `anyhow`'s context, as `{err:#}` prints the chain. -/
def context {α : Type} (text : String) : Except String α → Except String α
  | .ok value => .ok value
  | .error reason => .error (text ++ ": " ++ reason)

theorem eq_ok_of_context {α : Type} {text : String}
    {result : Except String α} {value : α}
    (ended : context text result = .ok value) : result = .ok value := by
  cases result with
  | error reason => cases ended
  | ok other => exact ended

def maxFriendTorrentBytes : Nat := 16 * 1024 * 1024

/-- `foreign_tiers`: the announce URLs other than ours. -/
def foreignTiers (torrent : Torrent) (announce : AnnounceSet) :
    List String :=
  torrent.announceTiers.flatten.filter fun url => url ∉ announce.tiers

/-- `with_upstream`: our tiers first, then the ones in `upstream`. -/
def withUpstream (data : TorrentFile) (announce : AnnounceSet)
    (upstream : List String) : Except String TorrentFile :=
  match Torrent.readFromBytes data with
  | .error reason => .error ("parsing a friend's .torrent: " ++ reason)
  | .ok torrent =>
    let tiers := (announce.tiers ++ upstream).map fun url => [url]
    .ok { torrent with
      announce := some announce.primary
      announceList := if 1 < tiers.length then some tiers else none }.encode

def matchesContentPath (torrent : TorrentSummary) (target : String) : Bool :=
  Rust.Path.same torrent.contentPath target

def couldContain (torrent : TorrentSummary) (target : String) : Bool :=
  torrent.savePath ≠ "" && Rust.Path.startsWith target torrent.savePath

def containsFile (savePath : String) (files : List TorrentFileEntry)
    (target : String) : Bool :=
  files.any fun file =>
    Rust.Path.same (Rust.Path.join savePath file.name) target

/-- A friend's torrent of the file that the client already holds. -/
def FriendTorrents.held (friends : FriendTorrents)
    (torrents : List TorrentSummary) : Option (Nat × CatalogEntry) :=
  friends.matches_.find? fun entry =>
    torrents.any fun torrent =>
      Rust.eqIgnoreAsciiCase torrent.hash entry.2.infoHash

/-- The seeder's settings. -/
structure Seeder where
  kind : ClientKind
  category : String
  tag : String
  skipChecking : Bool
  seeding : SeedingConfig
  sidecarRoots : List String
  torrentDir : String
  urls : Urls

namespace Seeder

/-- One call of the seeder to the client, the disk, the cache or a friend. -/
inductive Call where
  | files (hash : String)
  | add (request : AddRequest)
  | addTrackers (hash : String) (urls : List String)
  | setTrackers (hash : String) (urls : List String)
  | export_ (hash : String)
  | readCached (infoHash : String)
  | writeCached (infoHash : String) (data : TorrentFile)
  | fileLength (path : String)
  | fetch (url : String)
  | verifySingleFile (path : String) (torrent : Torrent)
  | subtitlesBeside (path : String)
  | create (request : TorrentRequest)
  | createWithSidecars (request : SidecarRequest)
  | isConfirmed (infoHash : String) (announce : AnnounceSet)
  | markConfirmed (infoHash : String) (announce : AnnounceSet)
deriving DecidableEq

@[reducible] def Answer : Call → Type
  | .files _ => Except String (List TorrentFileEntry)
  | .add _ => Except String Unit
  | .addTrackers _ _ => Except String Unit
  | .setTrackers _ _ => Except String Unit
  | .export_ _ => Except String (Option TorrentFile)
  | .readCached _ => Except String (Option TorrentFile)
  | .writeCached _ _ => Blocking Unit
  | .fileLength _ => Except String Nat
  | .fetch _ => Except String FriendResponse
  | .verifySingleFile _ _ => Blocking Bool
  | .subtitlesBeside _ => List String
  | .create _ => Blocking BuiltTorrent
  | .createWithSidecars _ => Blocking BuiltTorrent
  | .isConfirmed _ _ => Bool
  | .markConfirmed _ _ => Unit

abbrev Program := Process.Prog Call Answer

open Process (Prog)

/-- The second pass of `find_existing`: a torrent whose files cannot be listed
is passed over. -/
def searchFiles (target : String) : List TorrentSummary →
    Program (Option String)
  | [] => .done none
  | torrent :: torrents =>
    .call (.files torrent.hash) fun
      | .error _ => searchFiles target torrents
      | .ok files =>
        if containsFile torrent.savePath files target then
          .done (some torrent.hash)
        else searchFiles target torrents

def findExisting (torrents : List TorrentSummary) (target : String) :
    Program (Option String) :=
  match torrents.find? fun torrent => matchesContentPath torrent target with
  | some found => .done (some found.hash)
  | none => searchFiles target
      (torrents.filter fun torrent => couldContain torrent target)

variable (seeder : Seeder)

def torrentFilePath (infoHash : String) : String :=
  Rust.Path.join seeder.torrentDir (torrentFileName infoHash)

def writing (infoHash : String) : Blocking Unit → Except String Unit :=
  Blocking.result "cache write task panicked"
    ("writing " ++ seeder.torrentFilePath infoHash)

/-- The end of `adopt`: what is filed under `infoHash` has to be it. -/
def storeAdopted (infoHash : String) (rewritten : TorrentFile)
    (actual : String) (upstream : List String) :
    Program (Except String (List String)) :=
  if Rust.eqIgnoreAsciiCase actual infoHash then
    .call (.writeCached infoHash rewritten) fun wrote =>
      Prog.proceed (seeder.writing infoHash wrote) fun _ =>
        .done (.ok upstream)
  else
    .done (.error (seeder.kind.asStr ++ " handed back a .torrent for " ++
      actual ++ ", not " ++ infoHash))

/-- `adopt` once it has the bytes, from the cache or from the client. -/
def adoptBytes (infoHash : String) (announce : AnnounceSet)
    (fromCache : Bool) (bytes : TorrentFile) :
    Program (Except String (List String)) :=
  let failure := if fromCache then
      "parsing " ++ seeder.torrentFilePath infoHash
    else "rewriting the announce URLs of " ++ infoHash
  let upstream := match fromCache, Torrent.readFromBytes bytes with
    | false, .ok exported => foreignTiers exported announce
    | _, _ => []
  Prog.proceed (context failure (retargetAnnounce bytes announce)) fun
    | .current torrent =>
      if fromCache then .done (.ok upstream)
      else seeder.storeAdopted infoHash bytes torrent.info.infoHash upstream
    | .updated _ torrent data =>
      seeder.storeAdopted infoHash data torrent.info.infoHash upstream

def cannotExport (infoHash : String) : String :=
  seeder.kind.asStr ++ " already has a torrent covering this file (" ++
    infoHash ++ ") but cannot hand back its .torrent, and sharerr has none " ++
    "cached — so there would be nothing to serve a friend who asked for it. " ++
    "Remove that torrent, or let sharerr add its own"

/-- `adopt` once the client announces to us: keep a `.torrent` to serve. -/
def fileAdopted (infoHash : String) (announce : AnnounceSet) :
    Program (Except String (List String)) :=
  .call (.readCached infoHash) fun read =>
    Prog.proceed (context ("reading " ++ seeder.torrentFilePath infoHash)
        read) fun
      | some data => seeder.adoptBytes infoHash announce true data
      | none =>
        .call (.export_ infoHash) fun exported =>
          Prog.proceed (context ("exporting " ++ infoHash ++ " from " ++
              seeder.kind.asStr) exported) fun
            | none => .done (.error (seeder.cannotExport infoHash))
            | some data => seeder.adoptBytes infoHash announce false data

/-- Our tracker beside those the torrent has. -/
def adopt (infoHash : String) (announce : AnnounceSet) :
    Program (Except String (List String)) :=
  .call (.addTrackers infoHash announce.tiers) fun added =>
    Prog.proceed (context ("adding sharerr's tracker to " ++ infoHash ++
        " in " ++ seeder.kind.asStr) added) fun _ =>
      seeder.fileAdopted infoHash announce

def sumLengths (dir : String) (total : Nat) : List String →
    Program (Except String Nat)
  | [] => .done (.ok total)
  | name :: names =>
    .call (.fileLength (Rust.Path.join dir name)) fun length =>
      Prog.proceed length fun length =>
        sumLengths dir (Rust.saturatingAddU64 total length) names

def contentSize (path : String) (files : List String) :
    Program (Except String Nat) :=
  match files with
  | [] => .call (.fileLength path) .done
  | files => sumLengths ((Rust.Path.parent path).getD "") 0 files

def cachedSizeIsStale (path : String) (files : List String)
    (cachedLength : Nat) : Program Bool :=
  (contentSize path files).bind fun
    | .error _ => .done true
    | .ok onDisk => .done (onDisk ≠ cachedLength)

/-- `reuse_cached`: nothing where a rebuild is called for. -/
def reuseCached (known : Option String) (announce : AnnounceSet)
    (paths : ResolvedPaths) : Program (Option (String × TorrentFile)) :=
  match known with
  | none => .done none
  | some hash =>
    .call (.readCached hash) fun
      | .error _ | .ok none => .done none
      | .ok (some data) =>
        match retargetAnnounce data announce with
        | .error _ => .done none
        | .ok outcome =>
          (cachedSizeIsStale paths.sharerr outcome.torrent.filePaths
            outcome.torrent.info.contentLength).bind fun
            | true => .done none
            | false =>
              match outcome with
              | .current _ => .done (some (hash, data))
              | .updated _ _ rewritten =>
                .call (.writeCached hash rewritten) fun _ =>
                  .done (some (hash, rewritten))

/-- The checks on a friend's `.torrent` before it is compared with the
file. -/
def readFriendTorrent (entry : CatalogEntry) (response : FriendResponse) :
    Except String (TorrentFile × Torrent) :=
  if response.contentLength.any (maxFriendTorrentBytes < ·) then
    .error ("the friend's .torrent is " ++
      toString (response.contentLength.getD 0) ++ " bytes, past the " ++
      toString maxFriendTorrentBytes ++ "-byte cap")
  else
    match context "reading the friend's .torrent" response.body with
    | .error reason => .error reason
    | .ok (length, bytes) =>
      if maxFriendTorrentBytes < length then
        .error ("the friend's .torrent is " ++ toString length ++
          " bytes, past the " ++ toString maxFriendTorrentBytes ++
          "-byte cap")
      else
        match context "parsing the friend's .torrent"
            (Torrent.readFromBytes bytes) with
        | .error reason => .error reason
        | .ok torrent =>
          if Rust.eqIgnoreAsciiCase torrent.info.infoHash
              entry.infoHash then
            .ok (bytes, torrent)
          else
            .error ("the friend's .torrent is " ++
              torrent.info.infoHash ++ ", not the " ++ entry.infoHash ++
              " their catalog named")

/-- A friend's answer that is taken parses to the torrent it is taken for. -/
theorem readFriendTorrent_eq_ok {entry : CatalogEntry}
    {response : FriendResponse} {bytes : TorrentFile} {torrent : Torrent}
    (taken : readFriendTorrent entry response = .ok (bytes, torrent)) :
    ∃ length, response.body = .ok (length, bytes) ∧
      Torrent.readFromBytes bytes = .ok torrent ∧
        Rust.eqIgnoreAsciiCase torrent.info.infoHash entry.infoHash =
          true := by
  unfold readFriendTorrent at taken
  split at taken
  · cases taken
  · split at taken
    · cases taken
    · rename_i length _ body
      split at taken
      · cases taken
      · split at taken
        · cases taken
        · rename_i parsed
          split at taken
          · rename_i named
            cases taken
            exact ⟨length, eq_ok_of_context body, eq_ok_of_context parsed,
              named⟩
          · cases taken

/-- The end of `fetch_from_friend`: cache it announcing to us alone, and hand
it on with their tiers after ours. -/
def keepFriendTorrent (announce : AnnounceSet) (peerId : Nat)
    (bytes : TorrentFile) (torrent : Torrent) :
    Program (Except String (Option (String × TorrentFile × ItemOrigin))) :=
  let infoHash := torrent.info.infoHash
  Prog.proceed (rewriteAnnounce bytes announce) fun cached =>
    .call (.writeCached infoHash cached) fun wrote =>
      Prog.proceed (seeder.writing infoHash wrote) fun _ =>
        let upstream := foreignTiers torrent announce
        Prog.proceed (withUpstream bytes announce upstream) fun data =>
          .done (.ok (some (infoHash, data, ⟨some peerId, upstream⟩)))

/-- A friend's torrent is taken only when the file on disk has its pieces. -/
def fetchFromFriend (paths : ResolvedPaths) (announce : AnnounceSet)
    (peerId : Nat) (entry : CatalogEntry) :
    Program (Except String (Option (String × TorrentFile × ItemOrigin))) :=
  .call (.fetch entry.downloadUrl) fun response =>
    Prog.proceed (context "fetching the friend's .torrent" response)
        fun response =>
      Prog.proceed (readFriendTorrent entry response) fun (bytes, torrent) =>
        if !torrent.isSingleFile ||
            torrent.info.name ≠ Rust.Path.fileName paths.qbit then
          .done (.ok none)
        else if torrent.info.infoHashV2.isSome &&
            !seeder.kind.hybridTorrents then
          .done (.ok none)
        else
          .call (.verifySingleFile paths.sharerr torrent) fun verified =>
            Prog.proceed (verified.result "verification task panicked"
                ("verifying " ++ paths.sharerr)) fun
              | false => .done (.ok none)
              | true => seeder.keepFriendTorrent announce peerId bytes torrent

/-- `fetch_from_friends`: the first match that can seed the file. -/
def fetchFromFriends (paths : ResolvedPaths) (announce : AnnounceSet) :
    List (Nat × CatalogEntry) →
      Program (Option (String × TorrentFile × ItemOrigin))
  | [] => .done none
  | (peerId, entry) :: entries =>
    (seeder.fetchFromFriend paths announce peerId entry).bind fun
      | .ok (some found) => .done (some found)
      | .ok none | .error _ => fetchFromFriends paths announce entries

/-- The factory, over the file alone or with the subtitles beside it. -/
def createTorrent (paths : ResolvedPaths) (announce : AnnounceSet)
    (media : Option MediaMeta) (rootName : Option String)
    (sidecars : List String) : Program (Blocking BuiltTorrent) :=
  let hybrid := seeder.seeding.hybrid && seeder.kind.hybridTorrents
  match rootName, sidecars with
  | some rootName, _ :: _ =>
    .call (.createWithSidecars ⟨paths.sharerr, sidecars, rootName, announce,
      media, seeder.seeding.isPrivate⟩) .done
  | _, _ =>
    .call (.create ⟨paths.sharerr, announce, media, seeder.seeding.isPrivate,
      hybrid⟩) .done

def sidecarsFor (paths : ResolvedPaths) (rootName : Option String) :
    Program (List String) :=
  if (seeder.sidecarRoots.any fun root =>
      Rust.Path.startsWith paths.sharerr root) && rootName.isSome then
    .call (.subtitlesBeside paths.sharerr) .done
  else .done []

/-- `build`: a copy on disk that cannot be kept does not fail the build. -/
def build (paths : ResolvedPaths) (announce : AnnounceSet)
    (media : Option MediaMeta) : Program (Except String BuiltTorrent) :=
  let rootName := (Rust.Path.parent paths.qbit).bind Rust.Path.fileName
  (seeder.sidecarsFor paths rootName).bind fun sidecars =>
    (seeder.createTorrent paths announce media rootName sidecars).bind
        fun built =>
      Prog.proceed (built.result "torrent build task panicked"
          ("building a torrent for " ++ paths.sharerr)) fun built =>
        .call (.writeCached built.infoHash built.data) fun _ =>
          .done (.ok built)

/-- The torrent to hand to the client, and the friend's swarm it joins. -/
structure Acquired where
  infoHash : String
  data : TorrentFile
  joined : Option ItemOrigin

/-- The cached torrent, a friend's or, with neither, a new one. -/
def acquire (paths : ResolvedPaths) (announce : AnnounceSet)
    (known : Option String) (media : Option MediaMeta)
    (friends : FriendTorrents) : Program (Except String Acquired) :=
  (reuseCached known announce paths).bind fun
    | some (hash, data) =>
      match friends.joined with
      | some origin =>
        Prog.proceed (withUpstream data announce origin.upstream)
          fun data => .done (.ok ⟨hash, data, some origin⟩)
      | none => .done (.ok ⟨hash, data, none⟩)
    | none =>
      (seeder.fetchFromFriends paths announce friends.matches_).bind fun
        | some (hash, data, origin) => .done (.ok ⟨hash, data, some origin⟩)
        | none =>
          (seeder.build paths announce media).attempt fun built =>
            .done (.ok ⟨built.infoHash, built.data, none⟩)

/-- The directory the content sits in, for a multi-file torrent the one above
its root. -/
def savePath (paths : ResolvedPaths) (rootFolder : Option String) :
    Except String String :=
  let parent := (Rust.Path.parent paths.qbit).bind fun parent =>
    if rootFolder.isSome then Rust.Path.parent parent else some parent
  match parent with
  | some parent => .ok parent
  | none => .error (paths.qbit ++ " has no parent directory")

def addRequest (acquired : Acquired) (savePath : String)
    (rootFolder : Option String) : AddRequest :=
  { AddRequest.new acquired.data acquired.infoHash
      (torrentFileName acquired.infoHash) savePath with
    category := some seeder.category
    tags := some seeder.tag
    skipChecking := seeder.skipChecking
    rootFolder := rootFolder
    limits := ⟨seeder.seeding.uploadLimitKib, seeder.seeding.ratioLimit⟩ }

/-- The end of `seed`: hand the torrent to the client. -/
def handOver (paths : ResolvedPaths) (acquired : Acquired) :
    Program (Except String SeedOutcome) :=
  let parsed := (Torrent.readFromBytes acquired.data).toOption
  let isPrivate := parsed.all fun torrent => torrent.info.isPrivate
  let infoHashV2 := parsed.bind fun torrent => torrent.info.infoHashV2
  let rootFolder := parsed.bind fun torrent =>
    if torrent.isSingleFile then none else torrent.info.name
  Prog.proceed (savePath paths rootFolder) fun savePath =>
    .call (.add (seeder.addRequest acquired savePath rootFolder)) fun added =>
      Prog.proceed (context ("adding " ++ paths.qbit ++ " to " ++
          seeder.kind.asStr) added) fun _ =>
        .done (.ok (match acquired.joined with
          | some origin =>
            .joined acquired.infoHash origin (some ⟨isPrivate, infoHashV2⟩)
          | none => .added acquired.infoHash isPrivate infoHashV2))

/-- What the client has already is adopted, not added again. -/
def seed (paths : ResolvedPaths) (announce : AnnounceSet)
    (torrents : List TorrentSummary) (known : Option String)
    (media : Option MediaMeta) (friends : FriendTorrents) :
    Program (Except String SeedOutcome) :=
  (findExisting torrents paths.qbit).bind fun
    | some existing =>
      (seeder.adopt existing announce).attempt fun upstream =>
        .done (.ok (.reused existing upstream))
    | none =>
      match friends.held torrents with
      | some (peerId, entry) =>
        (seeder.adopt entry.infoHash announce).attempt fun upstream =>
          .done (.ok (.joined entry.infoHash ⟨some peerId, upstream⟩ none))
      | none =>
        (seeder.acquire paths announce known media friends).attempt
          fun acquired => seeder.handOver paths acquired

def refreshAnnounce (infoHash : String) (announce : AnnounceSet)
    (upstream : List String) : Program (Except String AnnounceRefresh) :=
  let path := seeder.torrentFilePath infoHash
  .call (.isConfirmed infoHash announce) fun
    | true => .done (.ok .current)
    | false =>
      .call (.readCached infoHash) fun read =>
        Prog.proceed (context ("reading " ++ path) read) fun
          | none => .done (.ok .noCachedTorrent)
          | some data =>
            Prog.proceed (context ("parsing " ++ path)
                (retargetAnnounce data announce)) fun
              | .current _ =>
                .call (.markConfirmed infoHash announce) fun _ =>
                  .done (.ok .current)
              | .updated _ _ rewritten =>
                let tiers := announce.tiers ++ upstream.filterMap
                  fun url => (seeder.urls.parse url).toOption
                .call (.setTrackers infoHash tiers) fun set =>
                  Prog.proceed (context ("updating trackers in " ++
                      seeder.kind.asStr) set) fun _ =>
                    .call (.writeCached infoHash rewritten) fun wrote =>
                      Prog.proceed (seeder.writing infoHash wrote)
                          fun _ =>
                        .call (.markConfirmed infoHash announce)
                          fun _ => .done (.ok .updated)

/-- The announce URLs of a cached copy, none where it does not parse. -/
def cachedTiers (cached : Option TorrentFile) : List String :=
  match cached.map Torrent.readFromBytes with
  | some (.ok torrent) => torrent.announceTiers.flatten
  | _ => []

/-- The trackers the client knows and our cached copy does not. -/
def recoverUpstream (infoHash : String) (announce : AnnounceSet) :
    Program (Except String (Option (List String))) :=
  .call (.export_ infoHash) fun exported =>
    Prog.proceed (context ("exporting " ++ infoHash ++ " from " ++
        seeder.kind.asStr) exported) fun
      | none => .done (.ok none)
      | some exported =>
        Prog.proceed (context ("parsing " ++ infoHash ++ " as " ++
            seeder.kind.asStr ++ " exported it")
            (Torrent.readFromBytes exported)) fun exported =>
          .call (.readCached infoHash) fun read =>
            Prog.proceed (context ("reading " ++
                seeder.torrentFilePath infoHash) read) fun cached =>
              .done (.ok (some ((foreignTiers exported announce).filter
                fun url => url ∉ cachedTiers cached)))

end Seeder

/-- A seeder for qBittorrent that parses every text as a URL of no host. -/
def homeSeeder : Seeder where
  kind := .qBittorrent
  category := "sharerr"
  tag := "sharerr"
  skipChecking := true
  seeding := ⟨none, none, true, false, none, none⟩
  sidecarRoots := []
  torrentDir := "/data/torrents"
  urls := ⟨.ok, fun _ => none⟩

end Sharerr
