import Sharerr.Items.Model
import Sharerr.Torrent.Metainfo

/-!
# What sharerr asks of a torrent client

The requests and readings every supported client understands.  Info hashes
are compared without regard to case.
-/

namespace Sharerr

inductive ClientKind where
  | qBittorrent
  | transmission
  | rtorrent
  | deluge
deriving DecidableEq, Repr

namespace ClientKind

def asStr : ClientKind → String
  | .qBittorrent => "qBittorrent"
  | .transmission => "Transmission"
  | .rtorrent => "rTorrent"
  | .deluge => "Deluge"

/-- Whether a hybrid torrent keeps its v1 hash as the client's identity for
it. -/
def hybridTorrents : ClientKind → Bool
  | .deluge => false
  | _ => true

end ClientKind

structure TorrentSummary where
  hash : String
  name : String
  savePath : String
  contentPath : String
  category : String
  tags : List String
  isSeeding : Bool
  isStopped : Bool
  ratio : Option Ratio
  ratioLimit : Option Ratio
  uploadLimitKib : Option Nat
deriving DecidableEq, Repr

structure TorrentFileEntry where
  name : String
  size : Nat
deriving DecidableEq, Repr

structure SeedingLimits where
  uploadLimitKib : Option Nat
  ratioLimit : Option Ratio
deriving DecidableEq, Repr

/-- `SeedingLimits::matches`.  `close` is the comparison of two ratios within
a thousandth, which is floating-point arithmetic. -/
def SeedingLimits.matches_ (goal : SeedingLimits)
    (close : Ratio → Ratio → Bool) (reported : TorrentSummary) : Bool :=
  (goal.uploadLimitKib.all fun want => reported.uploadLimitKib = some want) &&
    goal.ratioLimit.all fun want =>
      reported.ratioLimit.any fun have_ => close have_ want

structure AddRequest where
  data : TorrentFile
  infoHash : String
  filename : String
  savePath : String
  rootFolder : Option String
  category : Option String
  tags : Option String
  skipChecking : Bool
  stopped : Bool
  limits : SeedingLimits
deriving DecidableEq, Repr

def AddRequest.new (data : TorrentFile)
    (infoHash filename savePath : String) : AddRequest where
  data := data
  infoHash := infoHash
  filename := filename
  savePath := savePath
  rootFolder := none
  category := none
  tags := none
  skipChecking := false
  stopped := false
  limits := ⟨none, none⟩

/-- Two texts of one info hash. -/
def SameHash (left right : String) : Prop :=
  Rust.toAsciiLowercase left = Rust.toAsciiLowercase right

instance (left right : String) : Decidable (SameHash left right) :=
  inferInstanceAs (Decidable (_ = _))

end Sharerr
