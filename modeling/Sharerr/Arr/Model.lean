import Sharerr.Arr.Tags

/-!
# What the *arr apps answer

Of each answer the fields a walk reads.  A `Server` keeps what every request of
one walk is answered with; a request that fails, or whose answer does not
parse, is an error.
-/

namespace Sharerr

namespace Arr

def nonEmpty (value : Option String) : Option String :=
  value.filter fun text => Rust.trim text ≠ ""

def nonZero {α : Type} [DecidableEq α] [OfNat α 0] (value : Option α) :
    Option α :=
  value.filter (· ≠ 0)

structure SystemStatus where
  version : String
deriving DecidableEq, Repr

/-- The analysis of a file.  The number of channels is a float, and stands
here as `{:.1}` prints it. -/
structure MediaInfo where
  resolution : Option String
  videoCodec : Option String
  videoDynamicRangeType : Option String
  audioCodec : Option String
  audioChannels : Option String
  audioLanguages : Option String
  subtitles : Option String
  runTime : Option String
  audioBits : Option String
  audioSampleRate : Option String
deriving DecidableEq, Repr

/-- The shared shape, or nothing for an analysis that says nothing. -/
def MediaInfo.intoMeta (info : MediaInfo) : Option MediaMeta :=
  let media : MediaMeta := {
    resolution := nonEmpty info.resolution
    videoCodec := nonEmpty info.videoCodec
    dynamicRange := nonEmpty info.videoDynamicRangeType
    audioCodec := nonEmpty info.audioCodec
    audioChannels := info.audioChannels
    audioLanguages := nonEmpty info.audioLanguages
    subtitles := nonEmpty info.subtitles
    runtime := nonEmpty info.runTime
    audioSampleRate := info.audioSampleRate
    audioBitDepth := info.audioBits }
  if media = ⟨none, none, none, none, none, none, none, none, none, none⟩ then
    none
  else some media

structure Series where
  id : Int
  title : String
  tvdbId : Option Int
  tvMazeId : Option Int
  imdbId : Option String
  tags : List Int
  seasonType : Option String
deriving DecidableEq, Repr

/-- Numbered in another order than the official one. -/
def Series.usesAlternateOrder (show' : Series) : Bool :=
  (show'.seasonType.map Rust.trim).any fun order =>
    order ≠ "" && !Rust.eqIgnoreAsciiCase order "official"

structure EpisodeFile where
  id : Int
  path : String
  size : Nat
  sceneName : Option String
  mediaInfo : Option MediaInfo
deriving DecidableEq, Repr

/-- `episodeFileId` is 0 when the episode has no file on disk. -/
structure Episode where
  seasonNumber : Nat
  episodeNumber : Nat
  episodeFileId : Int
deriving DecidableEq, Repr

structure MovieFile where
  id : Int
  path : String
  size : Nat
  sceneName : Option String
  originalFilePath : Option String
  mediaInfo : Option MediaInfo
deriving DecidableEq, Repr

structure Movie where
  id : Int
  title : String
  year : Option Nat
  tmdbId : Option Int
  imdbId : Option String
  tags : List Int
  hasFile : Bool
  movieFile : Option MovieFile
  itemType : Option String
  studioTitle : Option String
  releaseDate : Option String
deriving DecidableEq, Repr

structure Artist where
  id : Int
  artistName : String
  tags : List Int
  foreignArtistId : Option String
deriving DecidableEq, Repr

structure Album where
  id : Int
  title : String
  foreignAlbumId : Option String
deriving DecidableEq, Repr

structure TrackFile where
  id : Int
  albumId : Int
  path : String
  size : Nat
  sceneName : Option String
  mediaInfo : Option MediaInfo
deriving DecidableEq, Repr

structure Track where
  trackFileId : Int
  absoluteTrackNumber : Option Nat
deriving DecidableEq, Repr

structure Author where
  id : Int
  authorName : String
  tags : List Int
deriving DecidableEq, Repr

structure Edition where
  isbn13 : Option String
  monitored : Bool
deriving DecidableEq, Repr

structure Book where
  id : Int
  title : String
  foreignBookId : Option String
  editions : List Edition
deriving DecidableEq, Repr

structure BookFile where
  id : Int
  bookId : Int
  path : String
  size : Nat
  sceneName : Option String
  mediaInfo : Option MediaInfo
deriving DecidableEq, Repr

structure DevelopmentConfig where
  metadataSource : Option String
deriving DecidableEq, Repr

/-- A client is only built for a source that speaks this API. -/
structure ArrClient where
  kind : MediaSource
  isArr : kind ≠ .directory

abbrev Answer := Except ArrError

/-- The answers to every `GET`, by the resource and the entity asked about. -/
structure Server where
  tag : Answer (List Tag)
  systemStatus : Answer SystemStatus
  series : Answer (List Series)
  episodefile : Int → Answer (List EpisodeFile)
  episode : Int → Answer (List Episode)
  movie : Answer (List Movie)
  moviefile : Int → Answer (List MovieFile)
  artist : Answer (List Artist)
  album : Int → Answer (List Album)
  trackfile : Int → Answer (List TrackFile)
  track : Int → Answer (List Track)
  author : Answer (List Author)
  book : Int → Answer (List Book)
  bookfile : Int → Answer (List BookFile)
  developmentConfig : Answer DevelopmentConfig

end Arr

end Sharerr
