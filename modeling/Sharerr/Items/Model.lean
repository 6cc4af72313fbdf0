import Sharerr.Rust.Basic

/-!
# Shared files

What a library source reports about a file, and what sharerr keeps about one
it shares.  Of the metadata only the resolution is computed with; the other
fields are carried along.
-/

namespace Sharerr

inductive MediaSource where
  | sonarr
  | radarr
  | lidarr
  | readarr
  | whisparr
  | directory
deriving DecidableEq, Repr

def MediaSource.asStr : MediaSource → String
  | .sonarr => "sonarr"
  | .radarr => "radarr"
  | .lidarr => "lidarr"
  | .readarr => "readarr"
  | .whisparr => "whisparr"
  | .directory => "directory"

/-- `(source, file_id)`: the identity of a file across syncs. -/
abbrev ItemKey := MediaSource × Int

instance : LawfulBEq ItemKey := inferInstance

inductive MediaSpec where
  | episode (seriesTitle : String) (season episode : Nat)
  | movie (title : String) (year : Option Nat)
  | track (artist album : String) (track : Option Nat)
  | book (author title : String)
deriving DecidableEq, Repr

def MediaSpec.kindTag : MediaSpec → String
  | .episode .. => "episode"
  | .movie .. => "movie"
  | .track .. => "track"
  | .book .. => "book"

structure ExternalIds where
  tvdb : Option Int
  tmdb : Option Int
  tvmaze : Option Int
  imdb : Option String
  musicbrainz : Option String
  goodreads : Option String
  hardcover : Option String
  isbn : Option String
deriving DecidableEq, Repr

/-- External ids with none of them known. -/
def noIds : ExternalIds :=
  ⟨none, none, none, none, none, none, none, none⟩

structure MediaMeta where
  resolution : Option String
  videoCodec : Option String
  dynamicRange : Option String
  audioCodec : Option String
  audioChannels : Option String
  audioLanguages : Option String
  subtitles : Option String
  runtime : Option String
  audioSampleRate : Option String
  audioBitDepth : Option String
deriving DecidableEq, Repr

/-- The standard resolution a frame sits on, by its height. -/
def rung (width height : Nat) : Option Nat :=
  let ladder := [(7680, 4320), (3840, 2160), (1920, 1080), (1280, 720),
    (720, 576), (720, 480)]
  (ladder.find? fun step => width = step.1 || height = step.2).map (·.2)

/-- `resolution` split into numbers, when it has the expected shape. -/
def MediaMeta.dimensions (media : MediaMeta) : Option (Nat × Nat) := do
  let raw ← media.resolution
  let (width, height) ← Rust.splitOnce (fun c => c = 'x' || c = 'X') raw
  pure (← Rust.parseU32 (Rust.trim width), ← Rust.parseU32 (Rust.trim height))

def MediaMeta.nominalHeight (media : MediaMeta) : Option Nat := do
  let (width, height) ← media.dimensions
  pure ((rung width height).getD height)

inductive ShareState where
  | pending
  | seeding
  | unshared
  | failed
deriving DecidableEq, Repr

/-- The bits of an `f64`.  Ratios are stored and compared, never computed. -/
abbrev Ratio := UInt64

/-- An item as the store keeps it, in seeding or before. -/
structure SharedItem where
  id : Option Nat
  source : MediaSource
  sourceId : Int
  fileId : Int
  spec : MediaSpec
  releaseTitle : String
  arrPath : String
  size : Nat
  ids : ExternalIds
  infoHash : Option String
  announceTokenFp : Option String
  createdBySharerr : Bool
  state : ShareState
  lastError : Option String
  createdAt : Option Int
  media : Option MediaMeta
  achievedRatio : Option Ratio
  ratioLimitReported : Option Ratio
  isPrivate : Bool
deriving DecidableEq, Repr

def SharedItem.key (item : SharedItem) : ItemKey := (item.source, item.fileId)

structure SceneMeta where
  studio : String
  year : Nat
  month : Nat
  day : Nat
deriving DecidableEq, Repr

structure Discovered where
  source : MediaSource
  sourceId : Int
  fileId : Int
  spec : MediaSpec
  arrPath : String
  size : Nat
  ids : ExternalIds
  sceneName : Option String
  originalPath : Option String
  media : Option MediaMeta
  scene : Option SceneMeta
deriving DecidableEq, Repr

namespace Discovered

def key (item : Discovered) : ItemKey := (item.source, item.fileId)

/-- An item new to the store, still pending. -/
def intoSharedItem (item : Discovered) (releaseTitle : String) :
    SharedItem where
  id := none
  source := item.source
  sourceId := item.sourceId
  fileId := item.fileId
  spec := item.spec
  releaseTitle := releaseTitle
  arrPath := item.arrPath
  size := item.size
  ids := item.ids
  media := item.media
  infoHash := none
  announceTokenFp := none
  createdBySharerr := false
  state := .pending
  lastError := none
  createdAt := none
  achievedRatio := none
  ratioLimitReported := none
  isPrivate := true

end Discovered

/-- A shared file's identity on disk when its torrent was built. -/
structure FileStamp where
  inode : Option UInt64
  mtimeNs : Int
deriving DecidableEq, Repr

/-- Where a torrent sharerr did not build came from. -/
structure ItemOrigin where
  peerId : Option Nat
  upstream : List String
deriving DecidableEq, Repr

/-- One torrent a friend's catalog lists. -/
structure CatalogEntry where
  infoHash : String
  spec : MediaSpec
  ids : ExternalIds
  size : Nat
  isPrivate : Bool
  downloadUrl : String
deriving DecidableEq, Repr

inductive PeerScope where
  | all
  | tv
  | movies
  | music
  | books
deriving DecidableEq, Repr

namespace PeerScope

def allows : PeerScope → MediaSource → Bool
  | .all, _ => true
  | .tv, source => source = .sonarr
  | .movies, source => source = .radarr
  | .music, source => source = .lidarr
  | .books, source => source = .readarr

def directoryKind : PeerScope → Option String
  | .all => none
  | .tv => some "episode"
  | .movies => some "movie"
  | .music => some "track"
  | .books => some "book"

/-- The rule of the feed's query: the source, or for a directory the kind its
spec declares. -/
def admits (scope : PeerScope) (item : SharedItem) : Bool :=
  scope.allows item.source ||
    item.source = .directory && scope.directoryKind = some item.spec.kindTag

end PeerScope

/-- Which friends each item carrying only `<tag>-<friend>` tags is for. -/
abbrev Audiences := ItemKey → Option (List String)

structure PeerLimits where
  maxSizeBytes : Option Int
  maxHeight : Option Int
  friend : Option String
deriving DecidableEq, Repr

namespace PeerLimits

/-- Whether the audience of an item leaves this friend in. -/
def inAudience (limits : PeerLimits) (audience : Option (List String)) :
    Bool :=
  audience.all fun friends => limits.friend.any fun friend =>
    friends.contains friend

def admits (limits : PeerLimits) (item : SharedItem)
    (audience : Option (List String)) : Bool :=
  limits.inAudience audience &&
    (limits.maxSizeBytes.all fun most =>
      (Rust.i64OfU64 item.size).any fun size => size ≤ most) &&
    (limits.maxHeight.all fun most =>
      (item.media.bind (·.nominalHeight)).all fun height =>
        (height : Int) ≤ most)

end PeerLimits

end Sharerr
