import Sharerr.Arr.Audience

/-!
# What a music file is named after

A file is a track when one record points at it.  What the walk counts are the
numbers of the records, so a record without a number is not counted, and a file
with several tracks is named after the only one of them that has a number.
-/

namespace Sharerr

namespace Arr

namespace Lidarr

/-- The records that point at a file, in order. -/
def pointingAt (tracks : List Track) (fileId : Int) : List Track :=
  tracks.filter (·.trackFileId = fileId)

/-- One record points at the file, and this is its number. -/
def IsTrack (tracks : List Track) (fileId : Int) (number : Nat) : Prop :=
  ∃ track, pointingAt tracks fileId = [track] ∧
    track.absoluteTrackNumber = some number

/-- What a file is to be named after: the track that it is, and the album where
several records point at it. -/
structure NamedRight (tracks : List Track) (fileId : Int)
    (track : Option Nat) : Prop where
  number : ∀ number, track = some number ↔ IsTrack tracks fileId number
  album : 2 ≤ (pointingAt tracks fileId).length → track = none

/-- Several records point at the file, and one of them has a number. -/
structure OneNumbered (tracks : List Track) (fileId : Int) : Prop where
  several : 2 ≤ (pointingAt tracks fileId).length
  numbered : (pointingAt tracks fileId).countP
    (·.absoluteTrackNumber.isSome) = 1

variable {tracks : List Track} {fileId : Int} {number : Nat}

theorem numbersByFile_getD (tracks : List Track) (fileId : Int) :
    (numbersByFile tracks fileId).getD [] =
      (pointingAt tracks fileId).filterMap (·.absoluteTrackNumber) := by
  induction tracks using List.reverseRecOn with
  | nil => rfl
  | append_singleton tracks track ih =>
    rw [numbersByFile, List.foldl_concat, ← numbersByFile, pointingAt,
      List.filter_append, List.filterMap_append, ← pointingAt, ← ih]
    by_cases points : track.trackFileId = fileId
    · cases numbered : track.absoluteTrackNumber with
      | none => simp [points, numbered]
      | some number => simp [points, numbered]
    · have elsewhere : fileId ≠ track.trackFileId := Ne.symm points
      cases numbered : track.absoluteTrackNumber with
      | none => simp [points]
      | some number => simp [points, Rust.insert_other _ elsewhere]

theorem trackNumber_eq_some_iff {numbers : Option (List Nat)} :
    trackNumber numbers = some number ↔ numbers.getD [] = [number] := by
  cases numbers with
  | none => simp [trackNumber]
  | some numbers =>
    rw [Option.getD_some, trackNumber.eq_def]
    split
    · rename_i one
      cases one
      simp
    · rename_i several
      constructor
      · intro impossible
        cases impossible
      · intro one
        exact absurd (congrArg some one) (several number)

theorem named_iff :
    trackNumber (numbersByFile tracks fileId) = some number ↔
      (pointingAt tracks fileId).filterMap (·.absoluteTrackNumber) =
        [number] := by
  rw [trackNumber_eq_some_iff, numbersByFile_getD]

theorem numbered_of_named
    (named : trackNumber (numbersByFile tracks fileId) = some number) :
    (pointingAt tracks fileId).countP (·.absoluteTrackNumber.isSome) = 1 := by
  rw [← List.length_filterMap_eq_countP, named_iff.mp named]
  rfl

theorem exists_named (numbered : (pointingAt tracks fileId).countP
      (·.absoluteTrackNumber.isSome) = 1) :
    ∃ number, trackNumber (numbersByFile tracks fileId) = some number := by
  rw [← List.length_filterMap_eq_countP, List.length_eq_one_iff] at numbered
  obtain ⟨number, one⟩ := numbered
  exact ⟨number, named_iff.mpr one⟩

theorem IsTrack.named (isTrack : IsTrack tracks fileId number) :
    trackNumber (numbersByFile tracks fileId) = some number := by
  obtain ⟨track, alone, numbered⟩ := isTrack
  rw [named_iff, alone, List.filterMap_cons, numbered, List.filterMap_nil]

theorem isTrack_of_named
    (named : trackNumber (numbersByFile tracks fileId) = some number)
    (few : (pointingAt tracks fileId).length < 2) :
    IsTrack tracks fileId number := by
  have numbers := named_iff.mp named
  cases pointing : pointingAt tracks fileId with
  | nil =>
    rw [pointing] at numbers
    cases numbers
  | cons track others =>
    rw [pointing, List.length_cons] at few
    have alone : others = [] := List.length_eq_zero_iff.mp (by omega)
    subst alone
    refine ⟨track, pointing, ?_⟩
    rw [pointing] at numbers
    cases numbered : track.absoluteTrackNumber with
    | none => simp [numbered] at numbers
    | some other => simpa [numbered] using numbers

theorem namedRight_iff :
    NamedRight tracks fileId (trackNumber (numbersByFile tracks fileId)) ↔
      ¬ OneNumbered tracks fileId := by
  constructor
  · intro right oneNumbered
    obtain ⟨number, named⟩ := exists_named oneNumbered.numbered
    rw [right.album oneNumbered.several] at named
    cases named
  · intro honest
    have few (number : Nat)
        (named : trackNumber (numbersByFile tracks fileId) = some number) :
        (pointingAt tracks fileId).length < 2 :=
      Nat.lt_of_not_le fun several =>
        honest ⟨several, numbered_of_named named⟩
    constructor
    · intro number
      exact ⟨fun named => isTrack_of_named named (few number named),
        IsTrack.named⟩
    · intro several
      rw [Option.eq_none_iff_forall_ne_some]
      intro number named
      exact absurd several (Nat.not_le.mpr (few number named))

variable {server : Server} {tagIds entityTags : List Int} {walked : Walked}
  {item : Discovered}

/-- A file that is found is named by what the app lists for its artist. -/
theorem spec_of_found (ended : discover server tagIds = .ok walked)
    (found : (item, entityTags) ∈ walked)
    (listed : server.track item.sourceId = .ok tracks) :
    ∃ artist album, item.spec = .track artist album
      (trackNumber (numbersByFile tracks item.fileId)) := by
  have lidarr : (⟨.lidarr, by decide⟩ : ArrClient).kind = .lidarr := rfl
  obtain ⟨-, names⟩ : _ ∧ Names (fun _ => none) _ server entityTags item :=
    (mem_discover_lidarr_iff lidarr ended).mp found
  cases names with
  | episode sonarr => exact absurd (sonarr.only lidarr) (by decide)
  | movie radarr => exact absurd (radarr.only lidarr) (by decide)
  | @track _ artist _ album _ _ _ _ _ _ _ _ _ tracksOk =>
    cases listed.symm.trans tracksOk
    exact ⟨artist.artistName, album.title, rfl⟩
  | book readarr => exact absurd (lidarr.symm.trans readarr) (by decide)

/-- Whatever records there are, a file is named after a track exactly when it
is that track and after its album when there are several, unless one of several
has a number; and so is a file that is found, by the records of its artist. -/
theorem named_after_track_iff (tracks : List Track) (fileId : Int) :
    (NamedRight tracks fileId (trackNumber (numbersByFile tracks fileId)) ↔
      ¬ OneNumbered tracks fileId) ∧
      ∀ server tagIds walked, discover server tagIds = .ok walked →
        ∀ item entityTags, (item, entityTags) ∈ walked →
          server.track item.sourceId = .ok tracks → item.fileId = fileId →
            ∃ artist album, item.spec = .track artist album
              (trackNumber (numbersByFile tracks fileId)) := by
  refine ⟨namedRight_iff, ?_⟩
  rintro server tagIds walked ended item entityTags found listed rfl
  exact spec_of_found ended found listed

/-- One album in one file, and the records that point at the file. -/
def albumServer (tracks : List Track) : Server :=
  { quiet with
    artist := .ok [⟨3, "Band", [1], none⟩]
    album := fun _ => .ok [⟨4, "Record", none⟩]
    trackfile := fun _ => .ok [⟨7, 4, "/music/file.flac", 1, none, none⟩]
    track := fun _ => .ok tracks }

def albumItem (track : Option Nat) : Discovered :=
  Lidarr.item ⟨3, "Band", [1], none⟩ ⟨4, "Record", none⟩
    ⟨7, 4, "/music/file.flac", 1, none, none⟩ track

theorem single_named_after_track :
    discover (albumServer [⟨7, some 3⟩]) [1] =
        .ok [(albumItem (some 3), [1])] ∧
      NamedRight [⟨7, some 3⟩] 7 (some 3) ∧
        ∃ artist album,
          (albumItem (some 3)).spec = .track artist album (some 3) := by
  have ended : discover (albumServer [⟨7, some 3⟩]) [1] =
      .ok [(albumItem (some 3), [1])] := rfl
  have one : ¬ OneNumbered [⟨7, some 3⟩] 7 :=
    fun several => absurd several.several (by decide)
  have ⟨right, named⟩ := named_after_track_iff [⟨7, some 3⟩] 7
  exact ⟨ended, right.mpr one,
    named _ _ _ ended _ _ List.mem_cons_self rfl rfl⟩

/-- Two records point at the file, and it is named after the one that has a
number. -/
theorem unnumbered_track_overlooked :
    discover (albumServer [⟨7, some 1⟩, ⟨7, none⟩]) [1] =
        .ok [(albumItem (some 1), [1])] ∧
      (albumItem (some 1)).spec = .track "Band" "Record" (some 1) ∧
        ¬ ∀ tracks fileId, NamedRight tracks fileId
          (trackNumber (numbersByFile tracks fileId)) := by
  refine ⟨rfl, rfl, ?_⟩
  intro right
  have album := (right [⟨7, some 1⟩, ⟨7, none⟩] 7).album (by decide)
  cases album

end Lidarr

end Arr

end Sharerr
