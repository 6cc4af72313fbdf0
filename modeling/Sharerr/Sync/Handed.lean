import Sharerr.Sync.Filed

/-!
# What the client is handed

A torrent handed to the client has to be one of the file being shared: it has
the file's name where the client looks for it, and its pieces are the file's,
unless the client checks them itself.  What was hashed or verified just before
is; a cached torrent was only ever compared by its size.
-/

namespace Sharerr

/-- The content is at `path` for a client that saves to `savePath`: a single
file under the torrent's name, the first of several in the directory of that
name. -/
def Torrent.PointsAt (torrent : Torrent) (savePath path : String) : Prop :=
  (torrent.info.files = none ∧ ∃ name, torrent.info.name = some name ∧
      Rust.Path.same (Rust.Path.join savePath name) path = true) ∨
    ∃ root first rest, torrent.info.name = some root ∧
      torrent.info.files = some (first :: rest) ∧
        Rust.Path.same
          (Rust.Path.join (Rust.Path.join savePath root) first) path = true

/-- The torrent has the name of the file at `path`, and of its directory where
it has several files. -/
def Info.NamesFile (info : Info) (path : String) : Prop :=
  ∃ name, Rust.Path.fileName path = some name ∧
    (info.files = none ∧ info.name = some name ∨
      ∃ dir root rest, Rust.Path.parent path = some dir ∧
        Rust.Path.fileName dir = some root ∧ info.name = some root ∧
          info.files = some (name :: rest))

/-- The directory `seed` saves to puts a torrent that names the file at the
file. -/
theorem Info.NamesFile.pointsAt {paths : ResolvedPaths} {torrent : Torrent}
    {dir : String} (names : torrent.info.NamesFile paths.qbit)
    (saved : Seeder.savePath paths
      (if torrent.isSingleFile then none else torrent.info.name) = .ok dir) :
    torrent.PointsAt dir paths.qbit := by
  obtain ⟨name, named, single | ⟨above, root, rest, found, rooted, under,
    several⟩⟩ := names
  · obtain ⟨alone, same⟩ := single
    have isSingle : torrent.isSingleFile = true := by
      rw [Torrent.isSingleFile, alone]
      rfl
    rw [isSingle, if_pos rfl] at saved
    refine .inl ⟨alone, name, same, Rust.Path.same_join ?_ named⟩
    unfold Seeder.savePath at saved
    cases parent : Rust.Path.parent paths.qbit with
    | none => simp [parent] at saved
    | some above =>
      simp only [parent, Option.bind_some, Option.isSome_none,
        Bool.false_eq_true, if_false] at saved
      rw [Except.ok.inj saved]
  · have isSingle : torrent.isSingleFile = false := by
      rw [Torrent.isSingleFile, several]
      rfl
    rw [isSingle, if_neg Bool.false_ne_true, under] at saved
    refine .inr ⟨root, name, rest, under, several,
      Rust.Path.same_join_join found named ?_ rooted⟩
    unfold Seeder.savePath at saved
    rw [found, Option.bind_some, Option.isSome_some, if_pos rfl] at saved
    cases top : Rust.Path.parent above with
    | none => simp [top] at saved
    | some directory =>
      rw [top] at saved
      rw [Except.ok.inj saved]

namespace Sync

open Process

/-- What lies at a path, and beside it, after a run so far, and whether it has
the pieces of a torrent. -/
structure Disk (Content : Type) where
  content : List Event → String → Content
  hashes : Info → Content → Prop

/-- The paths of an item of that key its source last reported. -/
def Sharing (syncer : Syncer) (past : List Event) (key : ItemKey)
    (paths : ResolvedPaths) : Prop :=
  ∃ item kind scan, Heard past (.discover kind) (.ok scan) ∧
    item ∈ scan.items ∧ item.key = key ∧
      syncer.resolveFor item.source item.arrPath = .ok paths

/-- The path whose content a call reads as a whole. -/
def Call.hashed : Call → Option String
  | .seeder _ (.create request) => some request.path
  | .seeder _ (.createWithSidecars request) => some request.path
  | .seeder _ (.verifySingleFile path _) => some path
  | _ => none

def Call.IsFiling : Call → Prop
  | .seeder _ (.writeCached ..) => True
  | _ => False

/-- Filing aside, `event` is the syncer's last call; it was made after
`earlier`. -/
def Since (past earlier : List Event) (event : Event) : Prop :=
  ∃ later, past = earlier ++ event :: later ∧
    ∀ other ∈ later, other.thread = 0 → other.request.IsFiling

/-- The last torrent the syncer read from its cache was of this content. -/
def LastCached (past : List Event) (info : Info) : Prop :=
  ∃ earlier key hash torrent later,
    past = earlier ++
        ⟨0, .seeder key (.readCached hash), .ok (some (.encoded torrent))⟩ ::
          later ∧
      torrent.info = info ∧
        ∀ other ∈ later, other.thread = 0 →
          ∀ key hash, other.request ≠ .seeder key (.readCached hash)

section Truth

variable {Content : Type} (disk : Disk Content) (syncer : Syncer)

/-- The factory names what it builds after the file, and hashes it; the
verification compares every piece. -/
structure Truthful (moment : Moment) (event : Event) : Prop where
  built : ∀ thread key request result,
    event = ⟨thread, .seeder key (.create request), .finished result⟩ →
      ∃ torrent name, result.data = Torrent.encode torrent ∧
        torrent.info.files = none ∧
          Rust.Path.fileName request.path = some name ∧
            torrent.info.name = some name ∧
              disk.hashes torrent.info
                (disk.content moment.past request.path)
  builtWith : ∀ thread key request result,
    event =
        ⟨thread, .seeder key (.createWithSidecars request),
          .finished result⟩ →
      ∃ torrent name, result.data = Torrent.encode torrent ∧
        torrent.info.files = some (name :: request.sidecars) ∧
          Rust.Path.fileName request.path = some name ∧
            torrent.info.name = some request.rootName ∧
              disk.hashes torrent.info
                (disk.content moment.past request.path)
  verified : ∀ thread key path torrent,
    event =
        ⟨thread, .seeder key (.verifySingleFile path torrent),
          .finished true⟩ →
      disk.hashes torrent.info (disk.content moment.past path)

/-- The file keeps its name and its content.  `named`: the client knows the
file a torrent is built of by the name it has here, and the file a friend's
torrent is compared with by some name.  `steady`: what was hashed is what lies
there when the client is told not to check it.  `fits`: so is what a cached
torrent was once built of, and the file still has its name. -/
structure FileKept (moment : Moment) (event : Event) : Prop where
  named : ∀ key request paths, event.request = .seeder key request →
    Sharing syncer moment.past key paths →
      (∀ wanted, request = .create wanted →
          Rust.Path.fileName paths.qbit = Rust.Path.fileName wanted.path) ∧
        (∀ wanted, request = .createWithSidecars wanted →
            Rust.Path.fileName paths.qbit = Rust.Path.fileName wanted.path) ∧
          ∀ path torrent, request = .verifySingleFile path torrent →
            Rust.Path.fileName paths.qbit ≠ none
  steady : ∀ key request earlier before path,
    event.request = .seeder key (.add request) →
      syncer.seeder.skipChecking = true →
        Since moment.past earlier before → before.request.hashed = some path →
          disk.content moment.past path = disk.content earlier path
  fits : ∀ key request earlier other path length info paths,
    event.request = .seeder key (.add request) →
      Since moment.past earlier ⟨0, .seeder other (.fileLength path), length⟩ →
        LastCached moment.past info → Sharing syncer moment.past key paths →
          info.NamesFile paths.qbit ∧
            (syncer.seeder.skipChecking = true →
              disk.hashes info (disk.content moment.past paths.sharerr))

/-- The torrent of the request points at the item's file, whose pieces it has
unless the client checks them. -/
def Right (past : List Event) (paths : ResolvedPaths)
    (request : AddRequest) : Prop :=
  ∃ torrent, Torrent.readFromBytes request.data = .ok torrent ∧
    torrent.PointsAt request.savePath paths.qbit ∧
      (request.skipChecking = true →
        disk.hashes torrent.info (disk.content past paths.sharerr))

/-- Whatever the client was handed was right when it was. -/
def HandedRight (past : List Event) : Prop :=
  ∀ earlier thread key request answer later,
    past = earlier ++
        ⟨thread, .seeder key (.add request), answer⟩ :: later →
      ∃ paths, Sharing syncer earlier key paths ∧
        Right disk earlier paths request

end Truth

section Proof

variable {Content : Type} {disk : Disk Content} {syncer : Syncer}

/-- The rule, over the runs that tell the truth and keep the file. -/
def handing (disk : Disk Content) (syncer : Syncer) :
    Protocol Nat World Call Answer where
  perform := perform
  condition moment event :=
    Truthful disk moment event ∧ FileKept disk syncer moment event
  invariant moment := HandedRight disk syncer moment.past
  guarantee _ _ _ := True

variable {event : Event} {past : List Event} {info : Info} {key : ItemKey}
  {request : Seeder.Call} {paths : ResolvedPaths}

theorem HandedRight.append (handed : HandedRight disk syncer past)
    (right : ∀ key request, event.request = .seeder key (.add request) →
      ∃ paths, Sharing syncer past key paths ∧ Right disk past paths request) :
    HandedRight disk syncer (past ++ [event]) := by
  intro earlier thread key request answer later whole
  rcases split_last whole with ⟨rfl, same⟩ | ⟨rest, -, old⟩
  · exact right key request (same ▸ rfl)
  · exact handed earlier thread key request answer rest old

variable {after before moment : Moment} {property : List Event → Prop}
  {data : TorrentFile}

theorem Since.append {earlier : List Event} {before : Event}
    (since : Since past earlier before)
    (files : event.thread = 0 → event.request.IsFiling) :
    Since (past ++ [event]) earlier before := by
  obtain ⟨later, rfl, quiet⟩ := since
  refine ⟨later ++ [event], by simp, ?_⟩
  intro other member
  rcases List.mem_append.mp member with old | new
  · exact quiet other old
  · rw [List.mem_singleton.mp new]
    exact files

theorem Since.last (past : List Event) (event : Event) :
    Since (past ++ [event]) past event :=
  ⟨[], rfl, fun _ member => absurd member List.not_mem_nil⟩

theorem LastCached.append (cached : LastCached past info)
    (reads : event.thread = 0 →
      ∀ key hash, event.request ≠ .seeder key (.readCached hash)) :
    LastCached (past ++ [event]) info := by
  obtain ⟨earlier, key, hash, torrent, later, rfl, same, quiet⟩ := cached
  refine ⟨earlier, key, hash, torrent, later ++ [event], by simp, same, ?_⟩
  intro other member
  rcases List.mem_append.mp member with old | new
  · exact quiet other old
  · rw [List.mem_singleton.mp new]
    exact reads

/-- Filing aside, the syncer's last call read the length of a file. -/
def Measured (past : List Event) : Prop :=
  ∃ earlier key path length,
    Since past earlier ⟨0, .seeder key (.fileLength path), length⟩

/-- The length of a file was read since a torrent of this content was read
from the cache. -/
def Compared (past : List Event) (info : Info) : Prop :=
  Measured past ∧ LastCached past info

theorem Compared.append (compared : Compared past info)
    (files : event.thread = 0 → event.request.IsFiling) :
    Compared (past ++ [event]) info := by
  obtain ⟨⟨earlier, key, path, length, since⟩, cached⟩ := compared
  refine ⟨⟨earlier, key, path, length, since.append files⟩,
    cached.append ?_⟩
  intro syncer other hash same
  have filing := files syncer
  rw [same] at filing
  exact filing

section Cached

variable {key : ItemKey} {property : List Event → Prop} {moment : Moment}
variable {info : Info}

end Cached

/-- Filing aside, the syncer's last call read the whole file, and found it to
have the pieces and the name of the torrent. -/
def HashedNow (disk : Disk Content) (past : List Event)
    (paths : ResolvedPaths) (info : Info) : Prop :=
  ∃ earlier before, Since past earlier before ∧
    before.request.hashed = some paths.sharerr ∧
      disk.hashes info (disk.content earlier paths.sharerr) ∧
        info.NamesFile paths.qbit

theorem HashedNow.append (hashed : HashedNow disk past paths info)
    (files : event.thread = 0 → event.request.IsFiling) :
    HashedNow disk (past ++ [event]) paths info := by
  obtain ⟨earlier, before, since, rest⟩ := hashed
  exact ⟨earlier, before, since.append files, rest⟩

/-- What `acquire` hands on, whichever way it got it. -/
def Vetted (disk : Disk Content) (past : List Event) (paths : ResolvedPaths)
    (data : TorrentFile) : Prop :=
  ∃ torrent, Torrent.readFromBytes data = .ok torrent ∧
    (HashedNow disk past paths torrent.info ∨ Compared past torrent.info)

theorem Vetted.append (vetted : Vetted disk past paths data)
    (files : event.thread = 0 → event.request.IsFiling) :
    Vetted disk (past ++ [event]) paths data := by
  obtain ⟨torrent, parsed, hashed | compared⟩ := vetted
  · exact ⟨torrent, parsed, .inl (hashed.append files)⟩
  · exact ⟨torrent, parsed, .inr (compared.append files)⟩

theorem Vetted.withUpstream {more : TorrentFile} {announce : AnnounceSet}
    {upstream : List String} (vetted : Vetted disk past paths data)
    (added : withUpstream data announce upstream = .ok more) :
    Vetted disk past paths more := by
  obtain ⟨torrent, parsed, known⟩ := vetted
  rw [Sharerr.withUpstream, parsed] at added
  cases added
  exact ⟨_, rfl, known⟩

section Fresh

variable {key : ItemKey} {property : List Event → Prop} {moment : Moment}
variable {seeder : Seeder} {announce : AnnounceSet} {paths : ResolvedPaths}

theorem Vetted.right {acquired : Seeder.Acquired} {dir : String}
    {rootFolder : Option String}
    {answer : Answer (.seeder key (.add
      (syncer.seeder.addRequest acquired dir rootFolder)))} {world : World}
    {torrent : Torrent}
    (kept : FileKept disk syncer ⟨world, past⟩
      ⟨0, .seeder key (.add
        (syncer.seeder.addRequest acquired dir rootFolder)), answer⟩)
    (shares : Sharing syncer past key paths)
    (vetted : Vetted disk past paths acquired.data)
    (parsed : Torrent.readFromBytes acquired.data = .ok torrent)
    (saved : Seeder.savePath paths
      (if torrent.isSingleFile then none else torrent.info.name) = .ok dir) :
    Right disk past paths
      (syncer.seeder.addRequest acquired dir rootFolder) := by
  obtain ⟨other, parsedToo, known⟩ := vetted
  rw [parsed] at parsedToo
  cases parsedToo
  rcases known with ⟨earlier, before, since, reads, pieces, names⟩ |
    ⟨⟨earlier, other, path, length, since⟩, cached⟩
  · refine ⟨torrent, parsed, names.pointsAt saved, fun skips => ?_⟩
    rw [kept.steady _ _ _ _ _ rfl skips since reads]
    exact pieces
  · obtain ⟨names, pieces⟩ :=
      kept.fits _ _ _ _ _ _ _ _ rfl since cached shares
    exact ⟨torrent, parsed, names.pointsAt saved, pieces⟩

end Fresh

end Proof

/-- Whether the event is a verification that succeeded. -/
def verifies : Event → Bool
  | ⟨_, .seeder _ (.verifySingleFile _ _), .finished true⟩ => true
  | _ => false

variable {event : Event} {moment : Moment}

variable {Content : Type} {disk : Disk Content}

/-- The torrents an event hands to the client, with where it saves them. -/
def handed : Event → List (String × Torrent)
  | ⟨_, .seeder _ (.add request), _⟩ =>
    match Torrent.readFromBytes request.data with
    | .ok torrent => [(request.savePath, torrent)]
    | .error _ => []
  | _ => []

/-- The paths of the items an event reports. -/
def reported : Event → List String
  | ⟨_, .discover _, .ok scan⟩ => scan.items.map (·.arrPath)
  | _ => []

/-- With paths that need no mapping, a single file is handed over under a path
that was reported. -/
theorem HandedRight.reported {Content : Type} {disk : Disk Content}
    {past : List Event} (right : HandedRight disk smallSyncer past)
    {dir name : String} {torrent : Torrent}
    (member : (dir, torrent) ∈ past.flatMap handed)
    (single : torrent.info.files = none)
    (named : torrent.info.name = some name) :
    ∃ path ∈ past.flatMap Sync.reported,
      Rust.Path.same (Rust.Path.join dir name) path = true := by
  obtain ⟨event, among, found⟩ := List.mem_flatMap.mp member
  obtain ⟨earlier, later, rfl⟩ := List.append_of_mem among
  unfold handed at found
  split at found
  · rename_i thread key request answer
    split at found
    · rename_i read parsed
      cases List.mem_singleton.mp found
      obtain ⟨paths, ⟨item, kind, scan, heard, item_, -, resolved⟩, other,
        parsedToo, points, -⟩ := right earlier thread key request answer later
          rfl
      rw [parsed] at parsedToo
      cases parsedToo
      cases resolved
      refine ⟨item.arrPath, List.mem_flatMap.mpr ⟨_, List.mem_append_left _
        heard.mem, List.mem_map.mpr ⟨item, item_, rfl⟩⟩, ?_⟩
      rcases points with ⟨-, other, same, points⟩ | ⟨_, _, _, -, several, -⟩
      · rw [named] at same
        cases same
        exact points
      · rw [single] at several
        cases several
    · cases found
  · cases found

end Sync

end Sharerr
