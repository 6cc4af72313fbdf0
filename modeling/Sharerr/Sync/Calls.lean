import Sharerr.Items.Table
import Sharerr.Peers.Table
import Sharerr.Process.Pool
import Sharerr.Sync.Seed

/-!
# The calls of a sync pass

What a pass shares with everybody else: the store, the torrents the client
holds, and what the syncer remembers between passes.  The library sources, the
disk, the clock and what the client says about single torrents answer as they
like.  A failed call changes nothing; a client that did part of the work before
it failed is one somebody else changed right afterwards (`edit`).
-/

namespace Sharerr

/-- What one source's discovery produced. -/
structure SourceScan where
  items : List Discovered
  complete : Bool
  audience : SourceAudience
deriving DecidableEq, Repr

/-- What a source of this kind can report: items of its own, and at least one
friend for each of them that is not for everyone. -/
def SourceScan.Valid (scan : SourceScan) (kind : MediaSource) : Prop :=
  (∀ item ∈ scan.items, item.source = kind) ∧
    (scan.audience.map (·.1)).Nodup ∧
      ∀ entry ∈ scan.audience, entry.2 ≠ [] ∧
        ∃ item ∈ scan.items, item.fileId = entry.1

instance (scan : SourceScan) (kind : MediaSource) :
    Decidable (scan.Valid kind) :=
  inferInstanceAs (Decidable (_ ∧ _))

namespace Sync

/-- What a syncer has already done about seeding limits. -/
structure LimitsMemo where
  applied : List String
  cap : Option (Option Nat)
deriving DecidableEq, Repr

/-- `track_cap_in_force` under the lock. -/
def LimitsMemo.track (memo : LimitsMemo) (cap : Option Nat) : LimitsMemo where
  applied := if memo.cap.any (· ≠ cap) then [] else memo.applied
  cap := some cap

structure World where
  items : ItemTable
  origins : OriginTable
  audience : AudienceTable
  client : List TorrentSummary
  limits : LimitsMemo
  confirmed : List (String × AnnounceSet)

/-- An empty store beside a client with these torrents. -/
def World.fresh (client : List TorrentSummary) : World where
  items := .empty
  origins := []
  audience := []
  client := client
  limits := ⟨[], none⟩
  confirmed := []

structure RunSummary where
  discovered : Nat
  added : Nat
  unshared : Nat
  failed : Nat
  error : Option String
deriving DecidableEq, Repr

/-- Calls made for one item name it; nothing else depends on the name. -/
inductive Call where
  | beginRun
  | finishRun (runId : Nat) (summary : RunSummary)
  | minuteOfDay
  | nowEpoch
  /-- The store's own reading of the clock. -/
  | storeClock
  | trackCap (cap : Option Nat)
  | limitsApplied (hash : String)
  | rememberLimits (hash : String)
  | ensureReady
  | announceSet
  | discover (kind : MediaSource)
  | list
  | setLimits (hash : String) (limits : SeedingLimits)
  | remove (hash : String)
  | allItems
  | fileStamps
  | shareEnds
  | itemOrigins
  | get (key : ItemKey)
  | upsert (item : SharedItem) (now : Int)
  | update (key : ItemKey) (update : ItemUpdate)
  | setItemOrigin (key : ItemKey) (origin : Option ItemOrigin)
  | replaceAudience (kind : MediaSource) (audience : SourceAudience)
  | catalogMatches (key : ItemKey) (spec : MediaSpec) (ids : ExternalIds)
      (size : Nat)
  | seedingItems (scope : PeerScope)
  | audiences
  | probe (key : ItemKey) (path : String)
  | tryExists (key : ItemKey) (path : String)
  | fileStamp (key : ItemKey) (path : String)
  /-- The order in which the values of a hash map are visited. -/
  | iterate (items : List SharedItem)
  | seeder (key : ItemKey) (request : Seeder.Call)
  /-- Somebody else changes what the client holds. -/
  | edit (torrents : List TorrentSummary)
  /-- The settings changed: another syncer starts, which remembers nothing. -/
  | renew
deriving DecidableEq

@[reducible] def Answer : Call → Type
  | .beginRun => Except StoreError Nat
  | .finishRun _ _ => Except StoreError Unit
  | .minuteOfDay => Nat
  | .nowEpoch => Int
  | .storeClock => Int
  | .trackCap _ => Except String Unit
  | .limitsApplied _ => Except String Bool
  | .rememberLimits _ => Except String Unit
  | .ensureReady => Except String Unit
  | .announceSet => Except String AnnounceSet
  | .discover _ => Except String SourceScan
  | .list => Except String (List TorrentSummary)
  | .setLimits _ _ => Except String Unit
  | .remove _ => Except String Unit
  | .allItems => Except StoreError (List SharedItem)
  | .fileStamps => Except StoreError (List (ItemKey × FileStamp))
  | .shareEnds => Except StoreError (List (ItemKey × Int))
  | .itemOrigins => Except StoreError OriginTable
  | .get _ => Except StoreError (Option SharedItem)
  | .upsert _ _ => Except StoreError Unit
  | .update _ _ => Except StoreError Unit
  | .setItemOrigin _ _ => Except StoreError Unit
  | .replaceAudience _ _ => Except StoreError Unit
  | .catalogMatches _ _ _ _ => Except StoreError (List (Nat × CatalogEntry))
  | .seedingItems _ => Except StoreError (List SharedItem)
  | .audiences => Except StoreError AudienceTable
  | .probe _ _ => Option MediaMeta
  | .tryExists _ _ => Except String Bool
  | .fileStamp _ _ => Option FileStamp
  | .iterate _ => List SharedItem
  | .seeder _ request => Seeder.Answer request
  | .edit _ => Unit
  | .renew => Unit

abbrev Program := Process.Prog Call Answer

namespace World

variable (world : World)

def holds (hash : String) : Bool :=
  world.client.any fun torrent => SameHash torrent.hash hash

/-- The torrent of a request, as the client then lists it. -/
def listed (request : AddRequest) : TorrentSummary :=
  let name := match Torrent.readFromBytes request.data with
    | .ok torrent => torrent.info.name.getD ""
    | .error _ => ""
  { hash := request.infoHash
    name
    savePath := request.savePath
    contentPath := Rust.Path.join request.savePath name
    category := request.category.getD ""
    tags := request.tags.toList
    isSeeding := true
    isStopped := request.stopped
    ratio := none
    ratioLimit := request.limits.ratioLimit
    uploadLimitKib := request.limits.uploadLimitKib }

def add (request : AddRequest) : World :=
  if world.holds request.infoHash then world
  else { world with client := world.client ++ [listed request] }

def remove (hash : String) : World :=
  { world with
    client := world.client.filter fun torrent => ¬ SameHash torrent.hash hash }

def updateItem (key : ItemKey) (update : ItemUpdate) : World :=
  { world with items := world.items.update key update }

def upsert (item : SharedItem) (now : Int) : World :=
  { world with items := world.items.upsert item now }

def setItemOrigin (key : ItemKey) (origin : Option ItemOrigin) : World :=
  { world with origins := world.origins.setItemOrigin key origin }

def replaceAudience (kind : MediaSource) (audience : SourceAudience) :
    World :=
  { world with audience := world.audience.replaceAudience kind audience }

def isConfirmed (infoHash : String) (announce : AnnounceSet) : Bool :=
  (infoHash, announce) ∈ world.confirmed

def markConfirmed (infoHash : String) (announce : AnnounceSet) : World :=
  { world with
    confirmed := (world.confirmed.filter fun entry => entry.1 ≠ infoHash) ++
      [(infoHash, announce)] }

end World

/-- A successful reading: it has to be the one the world gives. -/
def reading {ε α : Type} [DecidableEq α] (world : World) (truth : α) :
    Except ε α → Option World
  | .ok value => if value = truth then some world else none
  | .error _ => some world

/-- A write: it happens where it succeeds. -/
def writing {ε : Type} (world after : World) : Except ε Unit → Option World
  | .ok _ => some after
  | .error _ => some world

def discovering (world : World) (kind : MediaSource) :
    Except String SourceScan → Option World
  | .ok scan => if scan.Valid kind then some world else none
  | .error _ => some world

def performSeeder (world : World) :
    (request : Seeder.Call) → Seeder.Answer request → Option World
  | .add request, answer => writing world (world.add request) answer
  | .isConfirmed infoHash announce, answer =>
    if answer = true ∧ world.isConfirmed infoHash announce = false then none
    else some world
  | .markConfirmed infoHash announce, _ =>
    some (world.markConfirmed infoHash announce)
  | _, _ => some world

/-- A read answers with what is there; a write that fails changes nothing. -/
def perform : Process.Perform Nat World Call Answer :=
  fun _ world request answer =>
    match request, answer with
    | .trackCap cap, answer =>
      writing world { world with limits := world.limits.track cap } answer
    | .limitsApplied hash, answer =>
      reading world (decide (hash ∈ world.limits.applied)) answer
    | .rememberLimits hash, answer =>
      writing world
        { world with limits :=
            { world.limits with applied := hash :: world.limits.applied } }
        answer
    | .discover kind, answer => discovering world kind answer
    | .list, answer => reading world world.client answer
    | .remove hash, answer => writing world (world.remove hash) answer
    | .allItems, answer => reading world world.items.allItems answer
    | .fileStamps, answer => reading world world.items.fileStamps answer
    | .shareEnds, answer => reading world world.items.shareEnds answer
    | .itemOrigins, answer => reading world world.origins answer
    | .get key, answer => reading world (world.items.item? key) answer
    | .upsert item now, answer => writing world (world.upsert item now) answer
    | .update key update, answer =>
      writing world (world.updateItem key update) answer
    | .setItemOrigin key origin, answer =>
      writing world (world.setItemOrigin key origin) answer
    | .replaceAudience kind audience, answer =>
      writing world (world.replaceAudience kind audience) answer
    | .seedingItems scope, answer =>
      reading world (world.items.seedingItems scope) answer
    | .audiences, answer => reading world world.audience answer
    | .iterate items, order =>
      if order.isPerm items then some world else none
    | .seeder _ request, answer => performSeeder world request answer
    | .edit torrents, _ => some { world with client := torrents }
    | .renew, _ => some { world with limits := ⟨[], none⟩, confirmed := [] }
    | _, _ => some world

end Sync

end Sharerr
