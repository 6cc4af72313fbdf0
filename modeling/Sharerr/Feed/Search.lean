import Mathlib.Data.List.Infix
import Sharerr.Feed.Magnet
import Sharerr.Rust.Text
import Sharerr.Torrent.Metainfo

/-!
# Torznab searches

The parameters of a search that sharerr honours and what an item has to have
to match them.  Every filter that is absent matches everything.
-/

namespace Sharerr

namespace Torznab

/-- The tables of the standard library that no code here spells out. -/
structure Unicode where
  /-- `str::to_lowercase` -/
  toLowercase : String → String

def bytes (text : String) : List UInt8 := text.toUTF8.data.toList

def isAscii (text : String) : Bool := (bytes text).all (· < 128)

/-- `u8::eq_ignore_ascii_case`. -/
def eqIgnoreAsciiCase (left right : UInt8) : Bool :=
  let lower (byte : UInt8) : UInt8 :=
    if 65 ≤ byte ∧ byte ≤ 90 then byte + 32 else byte
  lower left = lower right

/-- `slice::windows`. -/
def windows (hay : List UInt8) (size : Nat) : List (List UInt8) :=
  (List.range (hay.length + 1 - size)).map fun start =>
    (hay.drop start).take size

def contains (hay needle : String) : Bool :=
  needle.toList <:+: hay.toList

/-- Whether `hay` contains `needle`, which is lowercase already, in whatever
case. -/
def containsCi (unicode : Unicode) (hay needle : String) : Bool :=
  if !isAscii hay then contains (unicode.toLowercase hay) needle
  else
    (bytes needle).isEmpty ||
      (windows (bytes hay) (bytes needle).length).any fun window =>
        (window.zip (bytes needle)).all fun pair =>
          eqIgnoreAsciiCase pair.1 pair.2

end Torznab

namespace ExternalIds

def trimStartTt : List Char → List Char
  | 't' :: 't' :: rest => trimStartTt rest
  | rest => rest

/-- An IMDb id reduced to its number. -/
def imdbBare (raw : String) : String :=
  String.ofList (trimStartTt (Rust.trim raw).toList)

end ExternalIds

namespace MediaSpec

/-- The series, film, album or book. -/
def title : MediaSpec → String
  | .episode seriesTitle _ _ => seriesTitle
  | .movie title _ => title
  | .track _ album _ => album
  | .book _ title => title

def creator : MediaSpec → Option String
  | .track artist _ _ => some artist
  | .book author _ => some author
  | .episode .. | .movie .. => none

end MediaSpec

namespace Torznab

def catTv : Nat := 5000

def catMovies : Nat := 2000

def catAudio : Nat := 3000

def catXxx : Nat := 6000

def catBooks : Nat := 7000

def categoryFor (item : SharedItem) : Nat :=
  match item.source, item.spec with
  | .whisparr, _ => catXxx
  | _, .episode .. => catTv
  | _, .movie .. => catMovies
  | _, .track .. => catAudio
  | _, .book .. => catBooks

def inCategoryGroups (groups : Option (List Nat)) (item : SharedItem) : Bool :=
  groups.all fun groups => groups.contains (categoryFor item)

def imdbMatches (stored : Option String) (wanted : String) : Bool :=
  stored.any fun stored =>
    ExternalIds.imdbBare stored = ExternalIds.imdbBare wanted

structure SearchQuery where
  q : Option String
  season : Option Nat
  ep : Option Nat
  tvdbid : Option Int
  tmdbid : Option Int
  imdbid : Option String
  cat : Option String
deriving DecidableEq, Repr

namespace SearchQuery

def needle (unicode : Unicode) (query : SearchQuery) : Option String :=
  (query.q.map fun q => unicode.toLowercase (Rust.trim q)).filter (· ≠ "")

/-- The top-level groups the query's categories belong to. -/
def categoryGroups (query : SearchQuery) : Option (List Nat) :=
  let groups := query.cat.map fun cat =>
    ((cat.toList.splitOn ',').filterMap fun id =>
      Rust.parseU32 (Rust.trim (String.ofList id))).map (· / 1000 * 1000)
  groups.filter (· ≠ [])

/-- An episode has to be the one asked for; asking for one excludes everything
that is not an episode. -/
def matchesSlot (query : SearchQuery) : MediaSpec → Bool
  | .episode _ season episode =>
    query.season.all (· = season) && query.ep.all (· = episode)
  | .movie .. | .track .. | .book .. => query.season.isNone && query.ep.isNone

/-- Each criterion given must hold; the text may be in any of three places. -/
def matchesWith (unicode : Unicode) (query : SearchQuery)
    (needle : Option String) (item : SharedItem) : Bool :=
  (query.tvdbid.all fun tvdbid => item.ids.tvdb = some tvdbid) &&
    (query.tmdbid.all fun tmdbid => item.ids.tmdb = some tmdbid) &&
    (query.imdbid.all (imdbMatches item.ids.imdb)) &&
    query.matchesSlot item.spec &&
    needle.all fun needle =>
      containsCi unicode item.releaseTitle needle ||
        (item.spec.creator.any fun creator =>
          containsCi unicode creator needle) ||
        containsCi unicode item.spec.title needle

/-- What `collect` keeps of the items. -/
def keeps (unicode : Unicode) (query : SearchQuery) (item : SharedItem) :
    Bool :=
  query.matchesWith unicode (query.needle unicode) item &&
    inCategoryGroups query.categoryGroups item

end SearchQuery

end Torznab

end Sharerr
