import Sharerr.Torrent.Moving

/-!
# The bytes behind a torrent file

Seeding sees a `.torrent` only through what is read from it, while the factory
and the rewrites work on its bytes.  What the bytes are rewritten to is what
the readings of them are rewritten to, and what the factory writes is read as
it was built.
-/

namespace Sharerr

namespace Metainfo

open Factory (Hashes)

variable (hashes : Hashes) (describe : MetainfoError → String)

/-- The torrent, by what is read from it. -/
def Torrent.readings (torrent : Metainfo.Torrent) : Sharerr.Torrent where
  announce := torrent.announce
  announceList := torrent.announceList
  info := {
    infoHash := torrent.infoHash fun bytes => (hashes.sha1 bytes).val
    infoHashV2 := torrent.infoHashV2 fun bytes => (hashes.sha256 bytes).val
    name := torrent.name
    files := if torrent.isSingleFile then none else some torrent.filePaths
    contentLength := torrent.contentLength
    isPrivate := torrent.isPrivate }

/-- The bytes, by what is read from them; `describe` prints an error. -/
def asFile (data : Bytes) : TorrentFile :=
  match Torrent.readFromBytes data with
  | .error reason => .malformed data (describe reason)
  | .ok torrent => .encoded (torrent.readings hashes)

/-- What retargeting comes to, by what is read from it. -/
def Retargeted.readings : Metainfo.Retargeted → Sharerr.Retargeted
  | .current torrent => .current (torrent.readings hashes)
  | .updated previous torrent data =>
    .updated previous (torrent.readings hashes) (asFile hashes describe data)

variable {hashes} {describe} {data : Bytes} {torrent : Metainfo.Torrent}
  {announce : AnnounceSet}

theorem asFile_of_read (read : Torrent.readFromBytes data = .ok torrent) :
    asFile hashes describe data = .encoded (torrent.readings hashes) := by
  rw [asFile, read]

theorem asFile_of_error {reason : MetainfoError}
    (refused : Torrent.readFromBytes data = .error reason) :
    asFile hashes describe data = .malformed data (describe reason) := by
  rw [asFile, refused]

theorem isSingleFile_readings :
    (torrent.readings hashes).isSingleFile = torrent.isSingleFile := by
  rw [Sharerr.Torrent.isSingleFile, Torrent.readings]
  cases torrent.isSingleFile <;> rfl

theorem filePaths_readings :
    (torrent.readings hashes).filePaths = torrent.filePaths := by
  rw [Sharerr.Torrent.filePaths, Torrent.readings]
  cases single : torrent.isSingleFile with
  | false => rfl
  | true =>
    rw [Torrent.isSingleFile, Option.isNone_iff_eq_none] at single
    rw [Torrent.filePaths, single]
    rfl

/-- A rewrite of the bytes is one of what is read from them. -/
theorem rewriteAnnounce_asFile (inMemory : InMemorySet announce) :
    Sharerr.rewriteAnnounce (asFile hashes describe data) announce =
      ((rewriteAnnounce data announce).mapError describe).map
        (asFile hashes describe) := by
  cases read : Torrent.readFromBytes data with
  | error reason =>
    rw [asFile_of_error read, rewriteAnnounce, read]
    rfl
  | ok torrent =>
    have again := read_rewritten read inMemory
    rw [asFile_of_read read, rewriteAnnounce_of_read read]
    exact congrArg Except.ok (asFile_of_read again).symm

/-- So is retargeting. -/
theorem retargetAnnounce_asFile (inMemory : InMemorySet announce) :
    Sharerr.retargetAnnounce (asFile hashes describe data) announce =
      ((retargetAnnounce data announce).mapError describe).map
        (Retargeted.readings hashes describe) := by
  cases read : Torrent.readFromBytes data with
  | error reason =>
    rw [asFile_of_error read, retargetAnnounce, read]
    rfl
  | ok torrent =>
    have again := read_rewritten read inMemory
    rw [asFile_of_read read, retargetAnnounce_of_read read]
    by_cases same : torrent.announce = some announce.primary
    · rw [if_pos same]
      exact if_pos same
    · rw [if_neg same]
      refine (if_neg same).trans (congrArg Except.ok ?_)
      rw [Retargeted.readings, asFile_of_read again]
      rfl

end Metainfo

namespace Factory

open Bencode (Value)
open Bencode.Value (string)
open Metainfo (AllWithin Within)
open Rust (u64Bound)

structure SidecarRequest.InMemory (request : SidecarRequest) : Prop where
  name : ∀ name ∈ Rust.Path.fileName request.path, Metainfo.InMemory name
  sidecars : ∀ name ∈ request.sidecars, Metainfo.InMemory name
  rootName : Metainfo.InMemory request.rootName
  announce : Metainfo.InMemorySet request.announce
  comment : ∀ comment ∈ request.comment, Metainfo.InMemory comment

theorem within_fileEntry {name : String} (inMemory : Metainfo.InMemory name)
    (length : Nat) : Within 3 (fileEntry name length) := by
  have path : Within 2 (.list [string name]) := by
    have text := Metainfo.within_string inMemory
    refine ⟨.list fun item member => ?_, Metainfo.valueLevels_le_of_each
      fun item member => ?_⟩ <;> rw [List.mem_singleton.mp member]
    · exact text.wellFormed
    · exact text.shallow
  exact (allWithin_insertText (by simp [writtenKeys])
    (allWithin_insertText (by simp [writtenKeys]) allWithin_nil
      ((within_intOf length).mono (by decide))) path).dict

theorem filePath_fileEntry (name : String) (length : Nat) :
    Metainfo.Torrent.filePath (fileEntry name length) = some name := by
  rw [Metainfo.Torrent.filePath, fileEntry]
  simp only [Value.asDict, Option.bind_some]
  rw [get_insertText, if_pos rfl]
  simp only [Option.bind_eq_bind, Option.bind_some, Value.asList,
    List.mapM_cons, List.mapM_nil, Metainfo.asStr_string]
  rfl

theorem filePaths_zipWith {names : List String} {lengths : List Nat}
    (paired : names.length = lengths.length) :
    (List.zipWith fileEntry names lengths).filterMap
      Metainfo.Torrent.filePath = names := by
  induction names generalizing lengths with
  | nil => rfl
  | cons name names ih =>
    cases lengths with
    | nil => cases paired
    | cons length lengths =>
      rw [List.zipWith_cons_cons,
        List.filterMap_cons_some (filePath_fileEntry name length),
        ih (Nat.succ.inj paired)]

theorem allWithin_severalInfo {hashes : Hashes} {names : List String}
    {content : Bytes} {rootName : String} {pieceLength : Nat}
    (lengths : List Nat) (isPrivate : Bool)
    (inMemory : ∀ name ∈ names, Metainfo.InMemory name)
    (root : Metainfo.InMemory rootName)
    (short : (digests hashes pieceLength content).length < u64Bound) :
    AllWithin 4 (severalInfo hashes names lengths content rootName pieceLength
      isPrivate) := by
  have each : ∀ item ∈ List.zipWith fileEntry names lengths,
      Within 3 item := by
    intro item member
    obtain ⟨index, bound, rfl⟩ := List.mem_iff_getElem.mp member
    rw [List.getElem_zipWith]
    exact within_fileEntry (inMemory _ (List.getElem_mem _)) _
  exact allWithin_insertText (by simp [writtenKeys])
    ((allWithin_baseInfo root short).mono (by decide))
    ⟨.list fun item member => (each item member).wellFormed,
      Metainfo.valueLevels_le_of_each fun item member =>
        (each item member).shallow⟩

theorem read_severalInfo {hashes : Hashes} {names : List String}
    {lengths : List Nat} {contents : List Bytes} {rootName : String}
    {total : Nat} {isPrivate : Bool} {torrent : Metainfo.Torrent}
    (info : torrent.info = severalInfo hashes names lengths contents.flatten
      rootName (pieceLengthFor total) isPrivate)
    (paired : names.length = lengths.length) :
    torrent.name = some rootName ∧ torrent.isSingleFile = false ∧
      torrent.filePaths = names ∧
        ∃ pieceLength, BuiltOver hashes lengths contents torrent
          pieceLength := by
  have field (key : String) (other : key ≠ "private") :=
    (congrArg (Rust.BTreeMap.get · (Vault.toUtf8 key)) info).trans
      (get_severalInfo key other)
  have root : torrent.infoField "name" = _ := field "name" (by decide)
  have files : torrent.infoField "files" = _ := field "files" (by decide)
  refine ⟨?_, ?_, ?_, _, builtOver_several info paired⟩
  · rw [Metainfo.Torrent.name, root]
    exact Metainfo.asStr_string rootName
  · rw [Metainfo.Torrent.isSingleFile, files]
    rfl
  · rw [Metainfo.Torrent.filePaths, files]
    exact filePaths_zipWith paired

/-- What was built over a file and its sidecars is a torrent of their names. -/
theorem createWithSidecars_is {hashes : Hashes} {listed read : Moments}
    {request : SidecarRequest} {built : BuiltTorrent}
    (sized : ((contentsOf read (request.path :: request.others)).flatten.length
      : Int) ≤ Rust.i64Max) (inMemory : request.InMemory)
    (created : createWithSidecars hashes listed read request = .ok built) :
    ∃ torrent name, built.Is hashes request.announce torrent ∧
      Rust.Path.fileName request.path = some name ∧
        torrent.name = some request.rootName ∧
          torrent.isSingleFile = false ∧
            torrent.filePaths = name :: request.sidecars ∧
              ∃ pieceLength, BuiltOver hashes
                (lengthsOf listed (request.path :: request.others))
                (contentsOf read (request.path :: request.others)) torrent
                pieceLength := by
  obtain ⟨name, total, named, rfl⟩ := createWithSidecars_cases created
  obtain ⟨exponent, low, -, length⟩ := pieceLengthFor_eq total
  have short : (digests hashes (pieceLengthFor total)
      (contentsOf read (request.path :: request.others)).flatten).length <
        u64Bound := by
    have few := divCeil_lt low sized
    rw [length_digests, Rust.length_chunks (pieceLengthFor_pos total), length]
    omega
  have fits := allWithin_severalInfo
    (lengthsOf listed (request.path :: request.others)) request.isPrivate
    (List.forall_mem_cons.mpr ⟨inMemory.name name named, inMemory.sidecars⟩)
    inMemory.rootName short
  have paired := length_listed listed request name
  exact ⟨_, name, ⟨read_finished fits allWithin_nil inMemory.announce
    inMemory.comment fun key _ => rfl, rfl, rfl, rfl⟩, named,
      read_severalInfo rfl paired⟩

end Factory

end Sharerr
