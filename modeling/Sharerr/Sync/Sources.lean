import Sharerr.Arr.Audience
import Sharerr.Rust.HashMap
import Sharerr.Scan.Complete
import Sharerr.Sync.Calls

/-!
# What a source answers

A pass asks its sources, the apps and the configured directories, and relies on
no more than that their answers are valid.  Both sorts answer with items of
their own kind, and an audience only for items they report.
-/

namespace Sharerr

namespace Sync

open Scan (LibraryConfig)

/-- `LibrarySource`, of which there are two implementations. -/
inductive LibrarySource where
  | arrClient (client : Arr.ArrClient)
  | directoryScanner (libraries : List LibraryConfig)

def LibrarySource.kind : LibrarySource → MediaSource
  | .arrClient client => client.kind
  | .directoryScanner _ => .directory

section Discover

variable (hostStr : String → Option String) (server : Arr.Server)
  (pathId : String → Int) (disk : LibraryConfig → Scan.Disk)

/-- What `discover` answers with.  The audience is a map, which lists its
entries in an order of its own, and a directory has none. -/
inductive Discovers (tagLabel : String) :
    LibrarySource → SourceScan → Prop where
  | arrClient {client : Arr.ArrClient} {found : Arr.TaggedFiles}
      {audience : Rust.HashMap Int (List String)} :
      client.discoverWithAudience hostStr server tagLabel = .ok found →
      (∀ fileId, audience.get fileId = found.audience fileId) →
      Discovers tagLabel (.arrClient client)
        ⟨found.items, true, audience.entries⟩
  | directoryScanner {libraries : List LibraryConfig}
      {outcome : Scan.ScanOutcome} :
      Scan.scanAll pathId disk libraries = .ok outcome →
      Discovers tagLabel (.directoryScanner libraries)
        ⟨outcome.items, outcome.incomplete = 0, []⟩

end Discover

variable {hostStr : String → Option String} {server : Arr.Server}
  {pathId : String → Int} {disk : LibraryConfig → Scan.Disk}
  {client : Arr.ArrClient} {tagLabel : String} {entityTags : List Int}
  {item : Discovered}

theorem source_of_names
    (names : Arr.Names hostStr client server entityTags item) :
    item.source = client.kind := by
  cases names with
  | episode => rfl
  | movie => rfl
  | track lidarr => exact lidarr.symm
  | book readarr => exact readarr.symm

theorem source_of_scanAll {libraries : List LibraryConfig}
    {outcome : Scan.ScanOutcome}
    (ended : Scan.scanAll pathId disk libraries = .ok outcome) :
    ∀ item ∈ outcome.items, item.source = .directory := by
  rw [Scan.scanAll] at ended
  split at ended
  case h_1 => cases ended
  case h_2 =>
      refine Rust.foldlM_keeps (fun outcome : Scan.ScanOutcome =>
        ∀ item ∈ outcome.items, item.source = .directory) ?_ ?_ ended
      · intro merged library after own scanned item member
        split at scanned
        case h_1 => cases scanned
        case h_2 outcome found =>
            cases scanned
            rcases List.mem_append.mp member with old | new
            · exact own item old
            · exact Scan.source_of_scan found new
      · intro item member
        cases member

/-- What a source discovers is valid of its kind. -/
theorem valid_of_discovers {source : LibrarySource} {scan : SourceScan}
    (answered : Discovers hostStr server pathId disk tagLabel source scan) :
    scan.Valid source.kind := by
  cases answered with
  | @arrClient client found audience ended same =>
    obtain ⟨tags, asked, ended⟩ := Rust.bind_eq_ok ended
    obtain ⟨plain, chosen, ended⟩ := Rust.bind_eq_ok ended
    obtain ⟨walked, walk, ended⟩ := Rust.bind_eq_ok ended
    rw [Arr.foldl_record] at ended
    cases ended
    refine ⟨?_, audience.distinct, ?_⟩
    · intro item member
      obtain ⟨⟨_, entityTags⟩, among, rfl⟩ := List.mem_map.mp member
      exact source_of_names ((Arr.mem_walk_iff walk).mp among).2
    · rintro ⟨fileId, names⟩ member
      rw [Rust.HashMap.mem_entries_iff, same] at member
      obtain ⟨item, entityTags, among, rfl, without, rfl⟩ :=
        Arr.of_audience_eq_some member
      refine ⟨?_, item, List.mem_map.mpr ⟨_, among, rfl⟩, rfl⟩
      have carries := ((Arr.mem_walk_iff walk).mp among).1
      exact Arr.friendsNamed_ne_nil (Arr.carriesAny_iff.mp carries) without
  | directoryScanner ended =>
    refine ⟨source_of_scanAll ended, List.nodup_nil, ?_⟩
    intro entry member
    cases member

end Sync

end Sharerr
