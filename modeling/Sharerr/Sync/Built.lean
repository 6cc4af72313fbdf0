import Sharerr.Sync.Filed
import Sharerr.Sync.Genuine
import Sharerr.Sync.Handed
import Sharerr.Torrent.Files

/-!
# What the factory answers

The rules about filing, handing over and reporting rest on what the factory
builds and verifies.  Answered from the bytes on the disk it keeps to all of
them.
-/

namespace Sharerr

open Metainfo (asFile)

/-- What lies under the factory: its hashes, how an error is printed, the line
`describe` makes of the media, and the disk after a run so far. -/
structure Workshop where
  hashes : Factory.Hashes
  printed : Metainfo.MetainfoError → String
  line : MediaMeta → Option String
  disk : List Sync.Event → Factory.Disk

namespace Workshop

variable (workshop : Workshop)

def request (asked : TorrentRequest) : Factory.TorrentRequest where
  path := asked.path
  announce := asked.announce
  comment := asked.media.bind workshop.line
  isPrivate := asked.isPrivate
  hybrid := asked.hybrid

def sidecarRequest (asked : SidecarRequest) : Factory.SidecarRequest where
  path := asked.path
  sidecars := asked.sidecars
  rootName := asked.rootName
  announce := asked.announce
  comment := asked.media.bind workshop.line
  isPrivate := asked.isPrivate

def shown (built : Factory.BuiltTorrent) : BuiltTorrent where
  infoHash := built.infoHash
  infoHashV2 := built.infoHashV2
  data := asFile workshop.hashes workshop.printed built.data
  size := built.size

end Workshop

namespace Sync

open Factory (Hashes BuiltOver contentsOf)

section Answers

variable (workshop : Workshop)

/-- The factory builds and verifies what is on the disk, where the files can be
read and everything fits in memory. -/
structure FromFactory (moment : Moment) (event : Event) : Prop where
  built : ∀ thread key request result,
    event = ⟨thread, .seeder key (.create request), .finished result⟩ →
      ∃ built, Factory.create workshop.hashes (workshop.disk moment.past)
          (workshop.request request) = .ok built ∧
        result = workshop.shown built ∧ (workshop.request request).InMemory ∧
          (workshop.disk moment.past request.path).Readable ∧
            ((workshop.disk moment.past request.path).content.length : Int) ≤
              Rust.i64Max
  builtWith : ∀ thread key request result,
    event =
        ⟨thread, .seeder key (.createWithSidecars request),
          .finished result⟩ →
      ∃ built, Factory.createWithSidecars workshop.hashes
          (fun _ => workshop.disk moment.past)
          (fun _ => workshop.disk moment.past)
          (workshop.sidecarRequest request) = .ok built ∧
        result = workshop.shown built ∧
          (workshop.sidecarRequest request).InMemory ∧
            ((Factory.contentsOf (fun _ => workshop.disk moment.past)
              (request.path :: (workshop.sidecarRequest request).others)
                ).flatten.length : Int) ≤ Rust.i64Max
  verified : ∀ thread key path torrent,
    event =
        ⟨thread, .seeder key (.verifySingleFile path torrent),
          .finished true⟩ →
      ∃ read, torrent = Metainfo.Torrent.readings workshop.hashes read ∧
        Factory.verifySingleFile workshop.hashes (workshop.disk moment.past)
          path read = .ok true

end Answers

/-- The torrent of the info dictionary has the pieces of the file at the path,
alone or with the files beside it. -/
def HasPieces (hashes : Hashes) (info : Info)
    (lying : Factory.Disk × String) : Prop :=
  ∃ torrent : Metainfo.Torrent, (torrent.readings hashes).info = info ∧
    (Factory.verifySingleFile hashes lying.1 lying.2 torrent = .ok true ∨
      ∃ (request : Factory.SidecarRequest) (lengths : List Nat)
        (pieceLength : Nat), request.path = lying.2 ∧
          torrent.filePaths.tail = request.sidecars ∧
            BuiltOver hashes lengths
              (contentsOf (fun _ => lying.1) (request.path :: request.others))
              torrent pieceLength)

/-- What lies at a path is the disk and the path. -/
def ground (workshop : Workshop) : Disk (Factory.Disk × String) where
  content := fun past path => (workshop.disk past, path)
  hashes := HasPieces workshop.hashes

section Contracts

variable {workshop : Workshop} {moment : Moment} {event : Event}
  {announce : AnnounceSet} {built : Factory.BuiltTorrent}
  {torrent : Metainfo.Torrent} {dictionaries : Dictionaries}

theorem shown_of_is (is : built.Is workshop.hashes announce torrent) :
    (workshop.shown built).data =
      ((torrent.readings workshop.hashes).announcingTo announce).encode := by
  have same : (torrent.readings workshop.hashes).announcingTo announce =
      torrent.readings workshop.hashes :=
    congrArg (Metainfo.Torrent.readings workshop.hashes) is.announces
  rw [same]
  exact Metainfo.asFile_of_read is.read

/-- What was built is the torrent of its hash, if the dictionaries know it. -/
theorem isOf_shown (is : built.Is workshop.hashes announce torrent)
    (known : (torrent.readings workshop.hashes).Genuine dictionaries) :
    (workshop.shown built).data.IsOf dictionaries
      (workshop.shown built).infoHash := by
  have data : (workshop.shown built).data = _ :=
    Metainfo.asFile_of_read is.read
  rw [data]
  exact TorrentFile.isOf_encode known
    (congrArg Rust.toAsciiLowercase is.infoHash.symm)

theorem buildsFor_of_fromFactory
    (answered : FromFactory workshop moment event) :
    BuildsFor moment event := by
  constructor
  · intro thread key request result happened
    obtain ⟨built, created, rfl, inMemory, readable, sized⟩ :=
      answered.built thread key request result happened
    obtain ⟨torrent, name, is, -⟩ :=
      Factory.create_is readable sized inMemory created
    exact ⟨_, shown_of_is is⟩
  · intro thread key request result happened
    obtain ⟨built, created, rfl, inMemory, sized⟩ :=
      answered.builtWith thread key request result happened
    obtain ⟨torrent, name, is, -⟩ :=
      Factory.createWithSidecars_is sized inMemory created
    exact ⟨_, shown_of_is is⟩

theorem truthful_of_fromFactory
    (answered : FromFactory workshop moment event) :
    Truthful (ground workshop) moment event where
  built := by
    intro thread key request result happened
    obtain ⟨built, created, rfl, inMemory, readable, sized⟩ :=
      answered.built thread key request result happened
    obtain ⟨torrent, name, is, found, named, described⟩ :=
      Factory.create_is readable sized inMemory created
    refine ⟨torrent.readings workshop.hashes, name,
      Metainfo.asFile_of_read is.read, ?_, found, named, torrent, rfl,
      .inl (described.verifies readable)⟩
    exact if_pos (Option.isNone_iff_eq_none.mpr described.single)
  builtWith := by
    intro thread key request result happened
    obtain ⟨built, created, rfl, inMemory, sized⟩ :=
      answered.builtWith thread key request result happened
    obtain ⟨torrent, name, is, found, named, several, names, pieceLength,
      pieces⟩ := Factory.createWithSidecars_is sized inMemory created
    refine ⟨torrent.readings workshop.hashes, name,
      Metainfo.asFile_of_read is.read, ?_, found, named, torrent, rfl,
      .inr ⟨workshop.sidecarRequest request, _, pieceLength, rfl, ?_,
        pieces⟩⟩
    · rw [Metainfo.Torrent.readings, several, names]
      rfl
    · rw [names]
      rfl
  verified := by
    intro thread key path torrent happened
    obtain ⟨read, rfl, verified⟩ :=
      answered.verified thread key path torrent happened
    exact ⟨read, rfl, .inl verified⟩

end Contracts

end Sync

end Sharerr
