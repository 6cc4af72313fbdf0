import Sharerr.Rust.Text
import Sharerr.Scan.Titles
import Sharerr.Tracker.Download
import Sharerr.Torrent.Pieces

/-!
# Release titles

A friend's app knows of a file only its release title.  The title is a name the
release had before, where that reads as what the file is, or it is made from
the metadata in the way scene releases are named.
-/

namespace Sharerr

/-- The scene name of the resolution that `rung` finds the height of. -/
def rungName (width height : Nat) : Option String :=
  let ladder := [(7680, 4320, "4320p"), (3840, 2160, "2160p"),
    (1920, 1080, "1080p"), (1280, 720, "720p"), (720, 576, "576p"),
    (720, 480, "480p")]
  (ladder.find? fun step => width = step.1 || height = step.2.1).map
    (·.2.2)

def videoTokenTable : List (String × String) :=
  [("av1", "AV1"), ("hevc", "x265"), ("h265", "x265"), ("x265", "x265"),
    ("avc", "x264"), ("h264", "x264"), ("x264", "x264"), ("vp9", "VP9"),
    ("mpeg2", "MPEG2"), ("xvid", "XviD")]

def audioTokenTable : List (String × String) :=
  [("wavpack", "WV"), ("truehd", "TrueHD"), ("dtshd", "DTS-HD"),
    ("flac", "FLAC"), ("alac", "ALAC"), ("eac3", "EAC3"), ("ac3", "AC3"),
    ("dts", "DTS"), ("mp3", "MP3"), ("mpegl3", "MP3"), ("layer3", "MP3"),
    ("aac", "AAC"), ("opus", "OPUS"), ("vorbis", "VORBIS"), ("wma", "WMA"),
    ("ape", "APE"), ("pcm", "PCM"), ("wav", "WAV")]

/-- The first token whose needle the letters and digits of `raw` contain. -/
def sceneToken (raw : String) (table : List (String × String)) :
    Option String :=
  let letters := (raw.toList.filter Char.isAlphanum).map Char.toLower
  (table.find? fun entry => decide (entry.1.toList <:+: letters)).map (·.2)

namespace MediaMeta

def sceneResolution (media : MediaMeta) : Option String := do
  let (width, height) ← media.dimensions
  rungName width height

def sceneVideoCodec (media : MediaMeta) : Option String := do
  sceneToken (← media.videoCodec) videoTokenTable

def sceneAudioFormat (media : MediaMeta) : Option String := do
  sceneToken (← media.audioCodec) audioTokenTable

end MediaMeta

namespace Title

/-- What Unicode's tables and the digest make of a text. -/
structure Letters where
  nfkd : List Char → List Char
  isCombiningMark : Char → Bool
  /-- `str::to_lowercase` -/
  toLowercase : String → String
  sha256 : Bytes → Factory.Digest 32
  nfkd_ascii : ∀ text : List Char,
    (∀ character ∈ text, character.toNat < 128) → nfkd text = text
  noMark_ascii : ∀ character : Char, character.toNat < 128 →
    isCombiningMark character = false

open Scan (ParsedTitle parse)

variable (letters : Letters)

/-- Base letters without the marks on them. -/
def transliterate (text : String) : String :=
  String.ofList ((letters.nfkd text.toList).filter fun character =>
    !letters.isCombiningMark character)

/-- What stands for a title that has no letter or digit of ASCII. -/
def asciiFallback (title : String) : String :=
  let digest := letters.sha256 (Vault.toUtf8 (letters.toLowercase title))
  "unknown" ++ Tracker.hexEncode (digest.val.take 4)

/-- The runs of letters and digits in a title. -/
def words (title : String) : List String :=
  Rust.splitWhitespace ((transliterate letters title).toList.map
    fun character => if character.isAlphanum then character else ' ') []

/-- Scene names are dot-separated with no spaces. -/
def dotted (title : String) : String :=
  let cleaned := String.intercalate "." (words letters title)
  if cleaned = "" then
    "Unknown." ++ String.ofList
      ((asciiFallback letters title).toList.drop "unknown".length)
  else cleaned

/-- What two titles are compared by. -/
def key (title : String) : String :=
  let ascii := ((transliterate letters title).toList.filter
    Char.isAlphanum).map Char.toLower
  if ascii = [] then asciiFallback letters title else String.ofList ascii

def looseEq (left right : String) : Bool :=
  key letters left = key letters right

/-- Whether a parse is of the same content as a spec. -/
def describes : ParsedTitle → MediaSpec → Bool
  | .episode title season episode, .episode seriesTitle s e =>
    season = s && episode = e && looseEq letters title seriesTitle
  | .movie title year, .movie t y =>
    looseEq letters title t && (year.isNone || y.isNone || year = y)
  | .unparseable, _ | .episode .., .track .. | .episode .., .book ..
  | .movie .., .track .. | .movie .., .book .. | .episode .., .movie ..
  | .movie .., .episode .. => false

def containers : List String :=
  [".mkv", ".mp4", ".avi", ".ts", ".m2ts", ".wmv", ".mov"]

/-- `sceneName` can have the container extension attached. -/
def stripExtension (name : String) : String :=
  let cut (ext : String) := name.length - ext.length
  match containers.find? fun ext => ext.length < name.length &&
      Rust.eqIgnoreAsciiCase (String.ofList (name.toList.drop (cut ext)))
        ext with
  | some ext => String.ofList (name.toList.take (cut ext))
  | none => name

/-- The group that made-up titles are tagged with. -/
def group : String := "SHARERR"

/-- The resolution and the video codec, or the most common ones. -/
def videoTokens (media : Option MediaMeta) : String × String :=
  ((media.bind MediaMeta.sceneResolution).getD "1080p",
    (media.bind MediaMeta.sceneVideoCodec).getD "x264")

/-- A title made from metadata alone. -/
def synthesize (spec : MediaSpec) (media : Option MediaMeta) : String :=
  let (resolution, codec) := videoTokens media
  let audio := (media.bind MediaMeta.sceneAudioFormat).getD "FLAC"
  match spec with
  | .episode seriesTitle season episode =>
    dotted letters seriesTitle ++ ".S" ++ Rust.twoDigits season ++ "E" ++
      Rust.twoDigits episode ++ "." ++ resolution ++ ".WEB-DL." ++ codec ++
      "-" ++ group
  | .movie title (some year) =>
    dotted letters title ++ "." ++ toString year ++ "." ++ resolution ++
      ".WEB-DL." ++ codec ++ "-" ++ group
  | .movie title none =>
    dotted letters title ++ "." ++ resolution ++ ".WEB-DL." ++ codec ++
      "-" ++ group
  | .track artist album (some track) =>
    dotted letters artist ++ "-" ++ dotted letters album ++ "-" ++
      Rust.twoDigits track ++ "-" ++ audio ++ "-" ++ group
  | .track artist album none =>
    dotted letters artist ++ "-" ++ dotted letters album ++ "-" ++ audio ++
      "-" ++ group
  | .book author title =>
    dotted letters author ++ "-" ++ dotted letters title ++ "-EPUB-" ++
      group

/-- The shape a scene release is parsed by: its studio in one word, its date,
and `XXX` where the title ends. -/
def synthesizeScene (scene : SceneMeta) (title : String)
    (media : Option MediaMeta) : String :=
  let (resolution, codec) := videoTokens media
  String.ofList ((dotted letters scene.studio).toList.filter (· ≠ '.')) ++
    "." ++ Rust.twoDigits (scene.year % 100) ++ "." ++
    Rust.twoDigits scene.month ++ "." ++ Rust.twoDigits scene.day ++ "." ++
    dotted letters title ++ ".XXX." ++ resolution ++ ".WEB-DL." ++ codec ++
    "-" ++ group

/-- The stem of a path, where it reads as the spec. -/
def describingStem (spec : MediaSpec) (path : String) : Option String :=
  (Rust.Path.fileStem path).filter fun stem =>
    describes letters (parse stem) spec

/-- The title of a file: the name its release had, or what the file is or was
called if that reads as the spec, or one that is made up.  No file name reads
as a scene. -/
def resolve (spec : MediaSpec) (sceneName originalPath : Option String)
    (media : Option MediaMeta) (path : String) (scene : Option SceneMeta) :
    String :=
  let known :=
    (sceneName.map fun name => stripExtension (Rust.trim name)).filter
      (· ≠ "")
  match known, scene, spec with
  | some cleaned, _, _ => cleaned
  | none, some scene, .movie title _ =>
    synthesizeScene letters scene title media
  | none, _, _ =>
    ((originalPath.toList ++ [path]).findSome?
      (describingStem letters spec)).getD (synthesize letters spec media)

end Title

end Sharerr
