import Mathlib.Data.Prod.Lex
import Sharerr.Arr.Model
import Sharerr.Rust.Traverse

/-!
# The resource walks

What each app's walk asks for and makes of the answers: the entities carrying
one of the tags, and for each of them the files it can name.
-/

namespace Sharerr

/-- A studio name and an ISO 8601 date or timestamp.  The date is the first ten
bytes; a character that takes more than one of them is no digit. -/
def SceneMeta.new (studio released : String) : Option SceneMeta := do
  let studio := Rust.trim studio
  let characters := released.toList.take 10
  if characters.length < 10 then none
  else
    let (year, rest) ← Rust.splitOnce (· = '-') (String.ofList characters)
    let (month, day) ← Rust.splitOnce (· = '-') rest
    let year ← (Rust.parseU32 year).filter (· < 65536)
    let month ← (Rust.parseU32 month).filter (· < 256)
    let day ← (Rust.parseU32 day).filter (· < 256)
    if studio ≠ "" ∧ 1 ≤ month ∧ month ≤ 12 ∧ 1 ≤ day ∧ day ≤ 31 then
      some ⟨studio, year, month, day⟩
    else none

namespace Arr

/-- What a tag is put on: a series, a movie, an artist or an author. -/
class Tagged (Entity : Type) where
  tags : Entity → List Int

export Tagged (tags)

instance : Tagged Series := ⟨Series.tags⟩
instance : Tagged Movie := ⟨Movie.tags⟩
instance : Tagged Artist := ⟨Artist.tags⟩
instance : Tagged Author := ⟨Author.tags⟩

/-- Whether an entity carries any of the tags. -/
def carriesAny (tagIds entityTags : List Int) : Bool :=
  entityTags.any fun tag => tagIds.contains tag

/-- The entities carrying any of the tags, each with what was fetched for
it.  The requests overlap, but their results keep the order of the entities. -/
def fetchTagged {Entity Payload : Type} [Tagged Entity]
    (entities : List Entity) (tagIds : List Int)
    (fetch : Entity → Answer Payload) : Answer (List (Entity × Payload)) := do
  let tagged := entities.filter fun entity => carriesAny tagIds (tags entity)
  let fetched ← tagged.mapM fetch
  pure (tagged.zip fetched)

/-- Each file with the container it names as its parent.  The containers are
collected into a map by id, and a file whose parent is not listed is dropped. -/
def joinByParent {Container File : Type} (containers : List Container)
    (files : List File) (containerId : Container → Int)
    (fileParent : File → Int) : List (Container × File) :=
  let byId := Rust.collected (containers.map fun container =>
    (containerId container, container))
  files.filterMap fun file =>
    (byId (fileParent file)).map fun container => (container, file)

/-- What a walk hands on: each file with the tags of its entity. -/
abbrev Walked := List (Discovered × List Int)

namespace Sonarr

def fetchSeries (server : Server) (series : Series) :
    Answer (List EpisodeFile × List Episode) := do
  let files ← server.episodefile series.id
  let episodes ← server.episode series.id
  pure (files, episodes)

/-- Real seasons before specials, then the lowest season and episode. -/
def rank (season episode : Nat) : Nat ×ₗ Nat ×ₗ Nat :=
  toLex (if season = 0 then 1 else 0, toLex (season, episode))

/-- The numbering kept for a file once a further episode points at it. -/
def lower (candidate : Nat × Nat) : Option (Nat × Nat) → Nat × Nat
  | none => candidate
  | some current =>
    if rank candidate.1 candidate.2 < rank current.1 current.2 then candidate
    else current

def numberingByFile (episodes : List Episode) : Int → Option (Nat × Nat) :=
  episodes.foldl (fun byFile ep =>
    if ep.episodeFileId = 0 then byFile
    else Rust.insert byFile ep.episodeFileId
      (lower (ep.seasonNumber, ep.episodeNumber) (byFile ep.episodeFileId)))
    fun _ => none

/-- A file of a series, named by the episode that numbers it. -/
def item (kind : MediaSource) (series : Series) (file : EpisodeFile)
    (season episode : Nat) : Discovered where
  source := kind
  sourceId := series.id
  fileId := file.id
  spec := .episode series.title season episode
  arrPath := file.path
  size := file.size
  ids := { noIds with
    tvdb := nonZero series.tvdbId
    tvmaze := nonZero series.tvMazeId
    imdb := nonEmpty series.imdbId }
  sceneName := nonEmpty file.sceneName
  media := file.mediaInfo.bind MediaInfo.intoMeta
  originalPath := none
  scene := none

def discover (client : ArrClient) (server : Server) (tagIds : List Int) :
    Answer Walked := do
  let series ← server.series
  -- a tagged series in an alternate order would be read with wrong numbers
  let series := series.filter fun show' =>
    !(carriesAny tagIds (tags show') && show'.usesAlternateOrder)
  let fetched ← fetchTagged series tagIds (fetchSeries server)
  pure (fetched.flatMap fun (show', files, episodes) =>
    if files.isEmpty then []
    else
      let numbering := numberingByFile episodes
      files.filterMap fun file =>
        (numbering file.id).map fun (season, episode) =>
          (item client.kind show' file season episode, show'.tags))

end Sonarr

namespace Radarr

/-- Asked for only where the movie says it has a file and does not carry it. -/
def movieFile (server : Server) (movie : Movie) :
    Answer (Option MovieFile) := do
  if movie.movieFile.isSome || !movie.hasFile then pure none
  else
    let files ← server.moviefile movie.id
    pure files.head?

def scene (movie : Movie) : Option SceneMeta :=
  if movie.itemType = some "scene" then do
    SceneMeta.new (← movie.studioTitle) (← movie.releaseDate)
  else none

def item (kind : MediaSource) (movie : Movie) (file : MovieFile) :
    Discovered where
  source := kind
  sourceId := movie.id
  fileId := file.id
  spec := .movie movie.title (nonZero movie.year)
  arrPath := file.path
  size := file.size
  ids := { noIds with
    tmdb := nonZero movie.tmdbId
    imdb := nonEmpty movie.imdbId }
  sceneName := nonEmpty file.sceneName
  originalPath := nonEmpty file.originalFilePath
  media := file.mediaInfo.bind MediaInfo.intoMeta
  scene := scene movie

def discover (client : ArrClient) (server : Server) (tagIds : List Int) :
    Answer Walked := do
  let movies ← server.movie
  let fetched ← fetchTagged movies tagIds (movieFile server)
  pure (fetched.filterMap fun (movie, fetched) =>
    (movie.movieFile.or fetched).map fun file =>
      (item client.kind movie file, movie.tags))

end Radarr

namespace Lidarr

def fetchArtist (server : Server) (artist : Artist) :
    Answer (List Album × List TrackFile × List Track) := do
  let albums ← server.album artist.id
  let files ← server.trackfile artist.id
  let tracks ← server.track artist.id
  pure (albums, files, tracks)

def numbersByFile (tracks : List Track) : Int → Option (List Nat) :=
  tracks.foldl (fun byFile track =>
    match track.absoluteTrackNumber with
    | none => byFile
    | some number => Rust.insert byFile track.trackFileId
        ((byFile track.trackFileId).getD [] ++ [number])) fun _ => none

/-- A file is one track only if exactly one track points at it. -/
def trackNumber : Option (List Nat) → Option Nat
  | some [number] => some number
  | _ => none

def item (artist : Artist) (album : Album) (file : TrackFile)
    (track : Option Nat) : Discovered where
  source := .lidarr
  sourceId := artist.id
  fileId := file.id
  spec := .track artist.artistName album.title track
  arrPath := file.path
  size := file.size
  ids := { noIds with
    musicbrainz := (nonEmpty album.foreignAlbumId).or
      (nonEmpty artist.foreignArtistId) }
  sceneName := nonEmpty file.sceneName
  originalPath := none
  media := file.mediaInfo.bind MediaInfo.intoMeta
  scene := none

def discover (server : Server) (tagIds : List Int) : Answer Walked := do
  let artists ← server.artist
  let fetched ← fetchTagged artists tagIds (fetchArtist server)
  pure (fetched.flatMap fun (artist, albums, files, tracks) =>
    if files.isEmpty then []
    else
      let numbers := numbersByFile tracks
      let joined := joinByParent albums files Album.id TrackFile.albumId
      joined.map fun (album, file) =>
        (item artist album file (trackNumber (numbers file.id)), artist.tags))

end Lidarr

namespace Readarr

def fetchAuthor (server : Server) (author : Author) :
    Answer (List Book × List BookFile) := do
  let books ← server.book author.id
  let files ← server.bookfile author.id
  pure (books, files)

/-- `hostStr` is the host of a URL, where the text is one that has a host. -/
def namesHardcover (hostStr : String → Option String)
    (metadataSource : String) : Bool :=
  (hostStr (Rust.trim metadataSource)).any fun host =>
    (Rust.toAsciiLowercase host).toList.tails.any fun rest =>
      "hardcover".toList.isPrefixOf rest

/-- A configuration that cannot be read is taken as Goodreads. -/
def usesHardcover (hostStr : String → Option String) (server : Server) :
    Bool :=
  match server.developmentConfig with
  | .ok config => config.metadataSource.any (namesHardcover hostStr)
  | .error _ => false

/-- The monitored edition first, then any that has an ISBN. -/
def pickIsbn (editions : List Edition) : Option String :=
  ((editions.find? fun edition =>
      edition.monitored && edition.isbn13.isSome).or
    (editions.find? fun edition => edition.isbn13.isSome)).bind fun edition =>
      nonEmpty edition.isbn13

def item (hardcover : Bool) (author : Author) (book : Book)
    (file : BookFile) : Discovered where
  source := .readarr
  sourceId := author.id
  fileId := file.id
  spec := .book author.authorName book.title
  arrPath := file.path
  size := file.size
  ids := { noIds with
    goodreads := if hardcover then none else nonEmpty book.foreignBookId
    hardcover := if hardcover then nonEmpty book.foreignBookId else none
    isbn := pickIsbn book.editions }
  sceneName := nonEmpty file.sceneName
  originalPath := none
  media := file.mediaInfo.bind MediaInfo.intoMeta
  scene := none

def discover (hostStr : String → Option String) (server : Server)
    (tagIds : List Int) : Answer Walked := do
  let authors ← server.author
  let fetched ← fetchTagged authors tagIds (fetchAuthor server)
  if fetched.isEmpty then pure []
  else
    let hardcover := usesHardcover hostStr server
    pure (fetched.flatMap fun (author, books, files) =>
      if files.isEmpty then []
      else
        let joined := joinByParent books files Book.id BookFile.bookId
        joined.map fun (book, file) =>
          (item hardcover author book file, author.tags))

end Readarr

/-- Version 3 of Whisparr is built on Radarr, version 2 on Sonarr. -/
def whisparrWalksLikeRadarr (version : String) : Bool :=
  let major := version.toList.takeWhile (· ≠ '.')
  (Rust.parseU32 (Rust.trim (String.ofList major))).any (3 ≤ ·)

namespace ArrClient

def walk (hostStr : String → Option String) (client : ArrClient)
    (server : Server) (tagIds : List Int) : Answer Walked := do
  match client.kind with
  | .sonarr => Sonarr.discover client server tagIds
  | .whisparr =>
    let status ← server.systemStatus
    if whisparrWalksLikeRadarr status.version then
      Radarr.discover client server tagIds
    else Sonarr.discover client server tagIds
  | .radarr => Radarr.discover client server tagIds
  | .lidarr => Lidarr.discover server tagIds
  | .readarr => Readarr.discover hostStr server tagIds
  | .directory => .error (.notAnApp client.kind)

end ArrClient

/-- The files found, and by file id whom those are for that only
`<tag>-<friend>` tags share. -/
structure TaggedFiles where
  items : List Discovered
  audience : Int → Option (List String)

namespace TaggedFiles

def empty : TaggedFiles := ⟨[], fun _ => none⟩

def record (plain : Int) (friends : List (Int × String))
    (found : TaggedFiles) (walked : Discovered × List Int) : TaggedFiles where
  items := found.items ++ [walked.1]
  audience :=
    if walked.2.contains plain then found.audience
    else Rust.insert found.audience walked.1.fileId
      (friendsNamed friends walked.2)

end TaggedFiles

/-- Everything the plain tag or a friend's tag shares, with whom for. -/
def ArrClient.discoverWithAudience (hostStr : String → Option String)
    (client : ArrClient) (server : Server) (tagLabel : String) :
    Answer TaggedFiles := do
  let tags ← server.tag
  let plain ← findTag client.kind tags tagLabel
  let friends := friendTags tags tagLabel
  let walked ← client.walk hostStr server (plain :: friends.map (·.1))
  pure (walked.foldl (TaggedFiles.record plain friends) TaggedFiles.empty)

end Arr

end Sharerr
