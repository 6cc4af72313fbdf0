import Mathlib.Data.List.Sort
import Sharerr.Feed.Search
import Sharerr.Friends.Handlers

/-!
# Friends' catalogs

What a friend lists is taken at its word: the entries of its answer that
parse are stored as they are, and those whose size, ids and slot are a file's
are its matches.
-/

namespace Sharerr

namespace ExternalIds

def compare {Id : Type} [DecidableEq Id] (left right : Option Id) :
    Option Bool := do
  let left ← left
  let right ← right
  return left = right

def foldedText (text : Option String) : Option String :=
  text.map fun text => Rust.toAsciiLowercase (Rust.trim text)

/-- What each kind of id says, where both sides have it. -/
def verdicts (ids other : ExternalIds) : List Bool :=
  [compare ids.tvdb other.tvdb, compare ids.tmdb other.tmdb,
    compare ids.tvmaze other.tvmaze,
    compare (ids.imdb.map imdbBare) (other.imdb.map imdbBare),
    compare (foldedText ids.musicbrainz) (foldedText other.musicbrainz),
    compare (foldedText ids.goodreads) (foldedText other.goodreads),
    compare (foldedText ids.hardcover) (foldedText other.hardcover),
    compare (foldedText ids.isbn) (foldedText other.isbn)].reduceOption

/-- At least one id agrees, and none disagrees. -/
def sameWork (ids other : ExternalIds) : Bool :=
  (ids.verdicts other).all id && !(ids.verdicts other).isEmpty

end ExternalIds

def MediaSpec.sameSlot : MediaSpec → MediaSpec → Bool
  | .episode _ season number, .episode _ season' number' =>
    season = season' && number = number'
  | .movie _ year, .movie _ year' =>
    year.isNone || year'.isNone || year = year'
  | .track _ _ number, .track _ _ number' => number = number'
  | .book _ _, .book _ _ => true
  | _, _ => false

def CatalogEntry.matches_ (entry : CatalogEntry) (spec : MediaSpec)
    (ids : ExternalIds) (size : Nat) : Bool :=
  entry.size = size && entry.ids.sameWork ids && entry.spec.sameSlot spec

structure CatalogItem where
  infoHash : String
  spec : MediaSpec
  ids : ExternalIds
  size : Nat
  isPrivate : Bool
deriving DecidableEq, Repr

/-- The catalog as it travels; `none` is an entry of a kind this version does
not know. -/
structure Catalog where
  token : Option String
  entries : List (Option CatalogItem)
deriving DecidableEq, Repr

def maxEntries : Nat := 50000

def torrentDownloadPath (infoHash : String) : String :=
  "/torrents/" ++ infoHash ++ ".torrent"

/-- The entries this version can use, with download links on `base`. -/
def entriesFrom (base : String) (catalog : Catalog) : List CatalogEntry :=
  let token := (catalog.token.map fun token =>
    "?token=" ++ Feed.encodeComponent token).getD ""
  (((catalog.entries.take maxEntries).reduceOption).filter fun item =>
      item.infoHash.utf8ByteSize = 40 &&
        item.infoHash.toList.all Friends.isAsciiHexdigit).map fun item =>
    let infoHash := Rust.toAsciiLowercase item.infoHash
    { infoHash
      spec := item.spec
      ids := item.ids
      size := item.size
      isPrivate := item.isPrivate
      downloadUrl := base ++ torrentDownloadPath infoHash ++ token }

/-- What was pulled from each friend: one row for each friend and hash. -/
abbrev PeerCatalog := List (Nat × CatalogEntry)

namespace PeerCatalog

/-- `INSERT OR REPLACE INTO peer_catalog`. -/
def insertOrReplace (peerId : Nat) (rows : PeerCatalog)
    (entry : CatalogEntry) : PeerCatalog :=
  let entry := { entry with
    infoHash := Rust.toAsciiLowercase entry.infoHash
    size := Rust.saturatingI64 entry.size }
  (rows.filter fun row =>
    ¬ (row.1 = peerId ∧ row.2.infoHash = entry.infoHash)) ++ [(peerId, entry)]

def replacePeerCatalog (rows : PeerCatalog) (peerId : Nat)
    (entries : List CatalogEntry) : PeerCatalog :=
  entries.foldl (insertOrReplace peerId)
    (rows.filter fun row => row.1 ≠ peerId)

/-- `ORDER BY p.id, c.info_hash`. -/
def inOrder (left right : Nat × CatalogEntry) : Prop :=
  left.1 < right.1 ∨
    left.1 = right.1 ∧ left.2.infoHash.toList ≤ right.2.infoHash.toList

instance : DecidableRel inOrder := fun _ _ =>
  inferInstanceAs (Decidable (_ ∨ _))

/-- `catalog_matches`, among the rows of friends not revoked. -/
def catalogMatches (rows : PeerCatalog) (active : Nat → Bool)
    (spec : MediaSpec) (ids : ExternalIds) (size : Nat) :
    List (Nat × CatalogEntry) :=
  ((rows.filter fun row =>
    row.2.size = Rust.saturatingI64 size && active row.1).insertionSort
      inOrder).filter fun row => row.2.matches_ spec ids size

end PeerCatalog

/-- The end of `pull`, with the friend's answer. -/
def pull (rows : PeerCatalog) (peerId : Nat) (base : String)
    (catalog : Catalog) : PeerCatalog :=
  rows.replacePeerCatalog peerId (entriesFrom (baseString base) catalog)

end Sharerr
