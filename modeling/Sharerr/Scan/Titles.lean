import Sharerr.Items.Model
import Sharerr.Rust.Path
import Sharerr.Rust.Words

/-!
# What a file name says

A plain directory has no metadata but its names.  A stem is read the way a
friend's app reads a release title, and the folders above a file stand for its
artist, album or author.
-/

namespace Rust

namespace Path

/-- A file name around its last dot, unless that is its first character. -/
def dotted (name : String) : String × Option String :=
  let back := name.toList.reverse
  let after := back.takeWhile (· ≠ '.')
  match back.drop after.length with
  | [] | [_] => (name, none)
  | _ :: before => (String.ofList before.reverse,
      some (String.ofList after.reverse))

/-- `Path::file_stem`. -/
def fileStem (text : String) : Option String :=
  (fileName text).map fun name => (dotted name).1

/-- `Path::extension`. -/
def extension (text : String) : Option String :=
  (fileName text).bind fun name => (dotted name).2

end Path

end Rust

namespace Sharerr

namespace Scan

open Rust (Path.fileStem Path.extension)

inductive ParsedTitle where
  | episode (title : String) (season episode : Nat)
  | movie (title : String) (year : Option Nat)
  | unparseable
deriving DecidableEq, Repr

/-- Dots and underscores back to spaces. -/
def humanize (stem : String) : String :=
  Rust.trim (String.ofList (stem.toList.map fun character =>
    if character = '.' ∨ character = '_' then ' ' else character))

def joinTitle (tokens : List String) : String :=
  Rust.trimMatches (fun character => character = '-' || character = ' ')
    (String.intercalate " " tokens)

/-- `S02E01`, in either case. -/
def seasonEpisode (token : String) : Option (Nat × Nat) :=
  match token.toList with
  | first :: rest => do
      if first ≠ 's' ∧ first ≠ 'S' then none
      else
        let (season, episode) ← Rust.splitOnce
          (fun character => character = 'e' || character = 'E')
          (String.ofList rest)
        pure (← Rust.parseU32 season, ← Rust.parseU32 episode)
  | [] => none

def releaseYear (token : String) : Option Nat :=
  let trimmed := Rust.trimMatches
    (fun character => ['(', ')', '[', ']'].contains character) token
  if trimmed.utf8ByteSize ≠ 4 then none
  else (Rust.parseU32 trimmed).filter fun year => 1900 ≤ year && year ≤ 2099

/-- The first token that reads as something, with the tokens before it. -/
def firstRead {α : Type} (read : String → Option α) :
    List String → List String → Option (List String × α)
  | _, [] => none
  | before, token :: rest =>
    match read token with
    | some value => some (before, value)
    | none => firstRead read (before ++ [token]) rest

/-- A title that is a year is not its own release year, so the first token is
not read as one. -/
def parse (title : String) : ParsedTitle :=
  let tokens := Rust.splitWhitespace (humanize title).toList []
  match firstRead seasonEpisode [] tokens with
  | some (before, season, episode) =>
    let name := joinTitle before
    if name = "" then .unparseable else .episode name season episode
  | none =>
    match firstRead releaseYear (tokens.take 1) (tokens.drop 1) with
    | some (before, year) =>
      let name := joinTitle before
      if name = "" then .unparseable else .movie name (some year)
    | none => .unparseable

inductive LibraryKind where
  | tv
  | movie
  | music
  | book
deriving DecidableEq, Repr

structure LibraryConfig where
  path : String
  kind : LibraryKind
deriving DecidableEq, Repr

def LibraryKind.extensions : LibraryKind → List String
  | .tv | .movie => ["mkv", "mp4", "avi", "m4v", "mov", "wmv", "ts", "webm"]
  | .music => ["flac", "mp3", "m4a", "ogg", "opus", "wav", "aac"]
  | .book => ["epub", "mobi", "azw", "azw3", "pdf", "cbz", "cbr"]

def hasMediaExtension (path : String) (kind : LibraryKind) : Bool :=
  (Path.extension path).any fun ext =>
    kind.extensions.any fun allowed => Rust.eqIgnoreAsciiCase ext allowed

/-- `levels` directories up from `path`. -/
def above : Nat → String → Option String
  | 0, path => some path
  | levels + 1, path => (Rust.Path.parent path).bind (above levels)

/-- The name of the directory `levels` above a path, if it is still strictly
inside the root. -/
def dirName (root path : String) (levels : Nat) : Option String := do
  let dir ← above levels path
  if !Rust.Path.startsWith dir root || Rust.Path.same dir root then none
  else Rust.Path.fileName dir

def leadingNumber (stem : String) : Option Nat :=
  Rust.parseU32 (String.ofList (stem.toList.takeWhile fun character =>
    '0' ≤ character ∧ character ≤ '9'))

/-- Tokens at which a name stops being a title. -/
def releaseTokens : List String :=
  ["480p", "720p", "1080p", "2160p", "4k", "bluray", "blu-ray", "webrip",
    "web-dl", "webdl", "hdtv", "dvdrip", "bdrip", "remux", "x264", "x265",
    "h264", "h265", "hevc", "av1", "xvid", "proper", "repack"]

def isCruft (word : String) : Bool :=
  let lowered := Rust.toAsciiLowercase word
  let head := String.ofList (lowered.toList.takeWhile (· ≠ '-'))
  releaseTokens.any fun token => token = lowered || token = head

def displayTitle (stem : String) : String :=
  let words := Rust.splitWhitespace (humanize stem).toList []
  joinTitle (words.takeWhile fun word => !isCruft word)

/-- What a bare file can be shared as, if anything. -/
def specFor (root path : String) (kind : LibraryKind) : Option MediaSpec := do
  let stem ← Path.fileStem path
  match kind with
  | .tv =>
    match parse stem with
    | .episode title season episode => some (.episode title season episode)
    | .movie .. | .unparseable => none
  | .movie =>
    match parse stem with
    | .movie title year => some (.movie title year)
    | .episode .. => none
    | .unparseable =>
      let title := displayTitle stem
      if title = "" then none else some (.movie title none)
  | .music =>
    let artist := dirName root path 2
    let album := dirName root path 1
    if artist.isNone && album.isNone then none
    else some (.track (artist.getD "Unknown Artist")
      (album.getD "Unknown Album") (leadingNumber stem))
  | .book =>
    some (.book ((dirName root path 1).getD "Unknown Author")
      (humanize stem))

end Scan

end Sharerr
