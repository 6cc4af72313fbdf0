import Sharerr.Process.Solo
import Sharerr.Sync.Seed

/-!
# What the refreshed files announce

Calls of `refresh_announce` one after the other, over the cached files and over
what is remembered of them.  The client and the disk may fail at any call; a
call that fails has changed nothing.  Nothing panics under the lock of what is
remembered.
-/

namespace Sharerr

namespace Sync

namespace Refreshed

open Process

/-- The cached files, and the set each was last seen announcing. -/
structure Cached where
  files : String → Option TorrentFile
  confirmed : String → Option AnnounceSet

/-- What answers the calls beside the cache, and which of them fail. -/
structure Weather where
  fault : Nat → Option String
  others : ∀ request, Seeder.Answer request

/-- Files and memory as they are, but for the calls that fail. -/
def Weather.respond (weather : Weather) :
    Responder Cached Seeder.Call Seeder.Answer := fun calls cached request =>
  match request with
  | .isConfirmed infoHash announce =>
    (decide (cached.confirmed infoHash = some announce), cached)
  | .markConfirmed infoHash announce =>
    ((), { cached with
      confirmed := Function.update cached.confirmed infoHash
        (some announce) })
  | .readCached infoHash =>
    match weather.fault calls with
    | some reason => (.error reason, cached)
    | none => (.ok (cached.files infoHash), cached)
  | .setTrackers _ _ =>
    match weather.fault calls with
    | some reason => (.error reason, cached)
    | none => (.ok (), cached)
  | .writeCached infoHash data =>
    match weather.fault calls with
    | some reason => (.failed reason, cached)
    | none => (.finished (), { cached with
        files := Function.update cached.files infoHash (some data) })
  | request => (weather.others request, cached)

/-- The file lists the URLs of the set in order, the first as its announce. -/
def Announced (cached : Cached) (infoHash : String) (announce : AnnounceSet) :
    Prop :=
  ∃ data torrent, cached.files infoHash = some data ∧
    Torrent.readFromBytes data = .ok torrent ∧
    torrent.announce = some announce.primary ∧
    torrent.announceTiers = announce.tiers.map fun url => [url]

/-- What is remembered is that the file announces the set. -/
def Cached.mark (cached : Cached) (infoHash : String)
    (announce : AnnounceSet) : Cached :=
  { cached with
    confirmed := Function.update cached.confirmed infoHash (some announce) }

def Cached.write (cached : Cached) (infoHash : String)
    (data : Option TorrentFile) : Cached :=
  { cached with files := Function.update cached.files infoHash data }

section Outcome

variable (seeder : Seeder) (weather : Weather) (cached : Cached)
  (infoHash : String) (announce : AnnounceSet) (upstream : List String)

/-- One call. -/
def refreshed : Finish Cached (Except String AnnounceRefresh) :=
  (seeder.refreshAnnounce infoHash announce upstream).alone weather.respond 0
    cached

/-- What one call can come to. -/
inductive Outcome : Finish Cached (Except String AnnounceRefresh) → Prop where
  | remembered {calls : Nat}
      (known : cached.confirmed infoHash = some announce) :
      Outcome ⟨.ok .current, cached, calls⟩
  | unchanged {value : Except String AnnounceRefresh} {calls : Nat}
      (unknown : cached.confirmed infoHash ≠ some announce)
      (silent : value ≠ .ok .current ∧ value ≠ .ok .updated) :
      Outcome ⟨value, cached, calls⟩
  | compared {data : TorrentFile} {torrent : Torrent} {calls : Nat}
      (unknown : cached.confirmed infoHash ≠ some announce)
      (found : cached.files infoHash = some data)
      (read : Torrent.readFromBytes data = .ok torrent)
      (same : torrent.announce = some announce.primary) :
      Outcome ⟨.ok .current, cached.mark infoHash announce, calls⟩
  | rewritten {torrent : Torrent} {calls : Nat}
      (unknown : cached.confirmed infoHash ≠ some announce) :
      Outcome ⟨.ok .updated,
        (cached.write infoHash (some (torrent.announcingTo announce).encode)
          ).mark infoHash announce, calls⟩

end Outcome

/-- One call after another, and what others write in between. -/
inductive Step where
  | refresh (infoHash : String) (announce : AnnounceSet)
      (upstream : List String) (weather : Weather)
  | write (infoHash : String) (data : Option TorrentFile)

/-- The cache, and the files that somebody else wrote after they were last
compared or rewritten. -/
structure Watched where
  cached : Cached
  foreign : String → Bool

/-- The call says that the file is up to date. -/
def Reported (value : Except String AnnounceRefresh) : Prop :=
  value = .ok .current ∨ value = .ok .updated

instance (value : Except String AnnounceRefresh) : Decidable (Reported value) :=
  match value with
  | .ok .current => isTrue (Or.inl rfl)
  | .ok .updated => isTrue (Or.inr rfl)
  | .ok .noCachedTorrent => isFalse (by
      rintro (same | same) <;> cases same)
  | .error _ => isFalse (by
      rintro (same | same) <;> cases same)

namespace Watched

variable (seeder : Seeder)

/-- A call that says so without remembering it has looked at the file. -/
def step (state : Watched) : Step → Watched
  | .refresh infoHash announce upstream weather =>
    let finish := refreshed seeder weather state.cached infoHash announce
      upstream
    { cached := finish.world
      foreign :=
        if Reported finish.value ∧
            state.cached.confirmed infoHash ≠ some announce then
          Function.update state.foreign infoHash false
        else state.foreign }
  | .write infoHash data =>
    { cached := state.cached.write infoHash data
      foreign := Function.update state.foreign infoHash true }

def run (state : Watched) (steps : List Step) : Watched :=
  steps.foldl (step seeder) state

/-- Cached files of which nothing is remembered. -/
def fresh (files : String → Option TorrentFile) : Watched :=
  ⟨⟨files, fun _ => none⟩, fun _ => false⟩

/-- The files announce what is remembered of them, those apart that somebody
else wrote. -/
def Kept (state : Watched) : Prop :=
  ∀ infoHash announce, state.cached.confirmed infoHash = some announce →
    state.foreign infoHash = false → Announced state.cached infoHash announce

end Watched

section Steps

variable {seeder : Seeder} {state : Watched} {infoHash : String}
  {announce : AnnounceSet} {upstream : List String} {weather : Weather}

end Steps

section Example

end Example

end Refreshed

end Sync

end Sharerr
