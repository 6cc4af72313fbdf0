import Sharerr.Items.Table

/-!
# What the writes on the items leave of a row

The items are written by one statement at a time: the upsert of a rediscovered
file, or an `UPDATE` of one row.  Every statement lists its own columns, so
what a row keeps is read off each of them and then carried along a whole
sequence.
-/

namespace Sharerr

inductive ItemWrite where
  | upsert (item : SharedItem) (now : Int)
  | update (key : ItemKey) (change : ItemUpdate)
deriving DecidableEq

namespace ItemWrite

def apply (table : ItemTable) : ItemWrite → ItemTable
  | .upsert item now => table.upsert item now
  | .update key change => table.update key change

/-- The writes the program makes: a rediscovered item describes a file and no
torrent, and `set_state` records only that a share failed or was withdrawn. -/
def AsCalled : ItemWrite → Prop
  | .upsert item _ => item.infoHash = none ∧ item.state ≠ .seeding
  | .update _ (.setState state _) => state = .failed ∨ state = .unshared
  | .update _ _ => True

instance : DecidablePred AsCalled := fun write =>
  match write with
  | .upsert _ _ => inferInstanceAs (Decidable (_ ∧ _))
  | .update _ change => by
      cases change <;> unfold AsCalled <;> infer_instance

/-- Whether the write is a `set_seeding` of this item. -/
def IsSetSeeding (write : ItemWrite) (key : ItemKey) : Prop :=
  ∃ infoHash announceTokenFp created isPrivate,
    write = .update key
      (.setSeeding infoHash announceTokenFp created isPrivate)

/-- What the write makes of the row of `key`. -/
def onRow (write : ItemWrite) (key : ItemKey) (row : ItemRow) : ItemRow :=
  match write with
  | .upsert item _ => if key = item.key then row.rediscovered item else row
  | .update written change =>
    if key = written then change.apply row else row

/-- The items after a sequence of writes on an empty store. -/
def after (writes : List ItemWrite) : ItemTable :=
  writes.foldl apply .empty

@[simp] theorem after_append_singleton (writes : List ItemWrite)
    (write : ItemWrite) :
    after (writes ++ [write]) = apply (after writes) write := by
  simp [after]

variable {write : ItemWrite} {table : ItemTable} {key : ItemKey}
variable {row next : ItemRow}

theorem row?_apply_of_some (found : table.row? key = some row) :
    (apply table write).row? key = some (write.onRow key row) := by
  cases write with
  | upsert item now =>
    rw [apply, ItemTable.row?_upsert, onRow, found]
    split <;> rfl
  | update written change =>
    rw [apply, ItemTable.row?_update, onRow, found]
    split <;> rfl

theorem row?_apply_of_none (absent : table.row? key = none)
    (found : (apply table write).row? key = some next) :
    ∃ item now, write = .upsert item now ∧
      next = item.newRow table.nextId now := by
  cases write with
  | upsert item now =>
    rw [apply, ItemTable.row?_upsert, absent] at found
    split at found
    · exact ⟨item, now, rfl, (Option.some.inj found).symm⟩
    · cases found
  | update written change =>
    rw [apply, ItemTable.row?_update, absent] at found
    split at found <;> cases found

theorem row?_apply_cases
    (found : (apply table write).row? key = some next) :
    (∃ row, table.row? key = some row ∧ next = write.onRow key row) ∨
      ∃ item now, write = .upsert item now ∧
        next = item.newRow table.nextId now := by
  cases known : table.row? key with
  | none => exact .inr (row?_apply_of_none known found)
  | some row =>
    rw [row?_apply_of_some known] at found
    exact .inl ⟨row, rfl, (Option.some.inj found).symm⟩

theorem createdAt_onRow (write : ItemWrite) (key : ItemKey)
    (row : ItemRow) : (write.onRow key row).createdAt = row.createdAt := by
  cases write with
  | upsert item now =>
    rw [onRow]
    split <;> rfl
  | update written change =>
    rw [onRow]
    split
    · cases change <;> rfl
    · rfl

theorem ownership_onRow
    (changed : (write.onRow key row).createdBySharerr ≠
        row.createdBySharerr ∨
      (write.onRow key row).isPrivate ≠ row.isPrivate) :
    write.IsSetSeeding key ∨ write = .update key .resetForRebuild := by
  cases write with
  | upsert item now =>
    rw [onRow] at changed
    split at changed <;> simp [ItemRow.rediscovered] at changed
  | update written change =>
    rw [onRow] at changed
    split at changed
    · rename_i same
      subst same
      cases change with
      | setSeeding infoHash announceTokenFp created isPrivate =>
        exact .inl ⟨infoHash, announceTokenFp, created, isPrivate, rfl⟩
      | resetForRebuild => exact .inr rfl
      | setState | setInfoHashV2 | confirmSeeding | setRatio
      | setFileStamp | setShareUntil =>
        simp [ItemUpdate.apply] at changed
    · simp at changed

theorem infoHash_onRow (known : row.infoHash ≠ none)
    (forgotten : (write.onRow key row).infoHash = none) :
    write = .update key .resetForRebuild := by
  cases write with
  | upsert item now =>
    rw [onRow] at forgotten
    split at forgotten
    · exact absurd (Option.or_eq_none_iff.mp forgotten).2 known
    · exact absurd forgotten known
  | update written change =>
    rw [onRow] at forgotten
    split at forgotten
    · rename_i same
      subst same
      cases change with
      | resetForRebuild => rfl
      | setSeeding => cases forgotten
      | setState | setInfoHashV2 | confirmSeeding | setRatio
      | setFileStamp | setShareUntil => exact absurd forgotten known
    · exact absurd forgotten known

/-- `COALESCE` keeps the metadata an earlier discovery established. -/
theorem media_onRow (known : row.media ≠ none) :
    (write.onRow key row).media ≠ none := by
  cases write with
  | upsert item now =>
    rw [onRow]
    split
    · intro forgotten
      exact known (Option.or_eq_none_iff.mp forgotten).2
    · exact known
  | update written change =>
    rw [onRow]
    split
    · cases change <;> exact known
    · exact known

/-- A row the feed would list has something to list. -/
def Listed (row : ItemRow) : Prop :=
  row.state = .seeding → row.infoHash ≠ none

theorem listed_onRow (called : write.AsCalled) (listed : Listed row) :
    Listed (write.onRow key row) := by
  cases write with
  | upsert item now =>
    rw [onRow]
    split
    · intro seeding
      exact absurd seeding called.2
    · exact listed
  | update written change =>
    rw [onRow]
    split
    · cases change with
      | setState state lastError =>
        intro seeding
        have recorded : state = .seeding := seeding
        subst recorded
        rcases called with failed | unshared
        · cases failed
        · cases unshared
      | setSeeding =>
        intro _ forgotten
        cases forgotten
      | resetForRebuild =>
        intro seeding
        cases seeding
      | setInfoHashV2 | confirmSeeding | setRatio | setFileStamp
      | setShareUntil => exact listed
    · exact listed

/-- A v2 hash that the write did not record itself was there before, and so
was the info hash beside it. -/
theorem infoHashV2_onRow {v2 : String} (called : write.AsCalled)
    (held : (write.onRow key row).infoHashV2 = some v2) :
    write = .update key (.setInfoHashV2 v2) ∨
      row.infoHashV2 = some v2 ∧
        (write.onRow key row).infoHash = row.infoHash := by
  cases write with
  | upsert item now =>
    rw [onRow] at held ⊢
    split at held
    · rename_i same
      rw [if_pos same]
      refine .inr ⟨held, ?_⟩
      simp [ItemRow.rediscovered, called.1]
    · rename_i different
      rw [if_neg different]
      exact .inr ⟨held, rfl⟩
  | update written change =>
    rw [onRow] at held ⊢
    split at held
    · rename_i same
      subst same
      rw [if_pos rfl]
      cases change with
      | setInfoHashV2 recorded =>
        cases held
        exact .inl rfl
      | setSeeding => cases held
      | resetForRebuild => cases held
      | setState | confirmSeeding | setRatio | setFileStamp
      | setShareUntil => exact .inr ⟨held, rfl⟩
    · rename_i different
      rw [if_neg different]
      exact .inr ⟨held, rfl⟩

section Sequences

variable {writes earlier later : List ItemWrite}

theorem row?_after_append {kept : ItemRow → Prop}
    (step : ∀ write key row, kept row → kept (onRow write key row))
    (found : (after earlier).row? key = some row) (holds : kept row) :
    ∃ next, (after (earlier ++ later)).row? key = some next ∧
      kept next := by
  induction later using List.reverseRecOn with
  | nil =>
    rw [List.append_nil]
    exact ⟨row, found, holds⟩
  | append_singleton later write ih =>
    obtain ⟨current, held, keeps⟩ := ih
    rw [← List.append_assoc, after_append_singleton]
    exact ⟨write.onRow key current, row?_apply_of_some held,
      step write key current keeps⟩

theorem listed_after (called : ∀ write ∈ writes, write.AsCalled)
    (found : (after writes).row? key = some row) : Listed row := by
  induction writes using List.reverseRecOn generalizing row with
  | nil => cases found
  | append_singleton writes write ih =>
    rw [after_append_singleton] at found
    have callsWrite : write.AsCalled := called write (by simp)
    rcases row?_apply_cases found with
      ⟨row, held, rfl⟩ | ⟨item, now, rfl, rfl⟩
    · have before : Listed row :=
        ih (fun write member => called write (by simp [member])) held
      exact listed_onRow callsWrite before
    · intro seeding
      exact absurd seeding callsWrite.2

/-- Since `later` began, right after `v2` was recorded, the row of `key` has
had this info hash and this v2 hash. -/
def Recorded (earlier later : List ItemWrite) (key : ItemKey)
    (row : ItemRow) (v2 : String) : Prop :=
  ∀ moment, moment <+: later → ∃ old,
    (after (earlier ++ .update key (.setInfoHashV2 v2) :: moment)).row? key =
        some old ∧
      old.infoHash = row.infoHash ∧ old.infoHashV2 = some v2

theorem recorded_after {v2 : String}
    (called : ∀ write ∈ writes, write.AsCalled)
    (found : (after writes).row? key = some row)
    (held : row.infoHashV2 = some v2) :
    ∃ earlier later,
      writes = earlier ++ .update key (.setInfoHashV2 v2) :: later ∧
        Recorded earlier later key row v2 := by
  induction writes using List.reverseRecOn generalizing row with
  | nil => cases found
  | append_singleton writes write ih =>
    have reached := found
    rw [after_append_singleton] at found
    rcases row?_apply_cases found with
      ⟨before, known, rfl⟩ | ⟨item, now, rfl, rfl⟩
    · rcases infoHashV2_onRow (called write (by simp)) held with
        rfl | ⟨already, same⟩
      · refine ⟨writes, [], rfl, ?_⟩
        intro moment start
        rw [List.prefix_nil.mp start]
        exact ⟨_, reached, rfl, held⟩
      · obtain ⟨earlier, later, rfl, since⟩ :=
          ih (fun write member => called write (by simp [member])) known
            already
        refine ⟨earlier, later ++ [write], by simp, ?_⟩
        intro moment start
        rcases List.prefix_concat_iff.mp start with whole | part
        · subst whole
          refine ⟨_, ?_, rfl, held⟩
          simpa using reached
        · obtain ⟨old, stood, hash, v2Hash⟩ := since moment part
          exact ⟨old, stood, hash.trans same.symm, v2Hash⟩
    · cases held

/-- What the rows keep over a sequence of writes. -/
structure KeepsHistory (writes : List ItemWrite) : Prop where
  createdAt : ∀ earlier later key row, writes = earlier ++ later →
    (after earlier).row? key = some row →
    ∃ next, (after writes).row? key = some next ∧
      next.createdAt = row.createdAt
  ownership : ∀ earlier write later key row next,
    writes = earlier ++ write :: later →
    (after earlier).row? key = some row →
    (after (earlier ++ [write])).row? key = some next →
    (next.createdBySharerr ≠ row.createdBySharerr ∨
      next.isPrivate ≠ row.isPrivate) →
    write.IsSetSeeding key ∨ write = .update key .resetForRebuild
  infoHash : ∀ earlier write later key row next,
    writes = earlier ++ write :: later →
    (after earlier).row? key = some row →
    (after (earlier ++ [write])).row? key = some next →
    row.infoHash ≠ none → next.infoHash = none →
    write = .update key .resetForRebuild
  seeding : ∀ key row, (after writes).row? key = some row →
    row.state = .seeding → row.infoHash ≠ none
  infoHashV2 : ∀ key row v2, (after writes).row? key = some row →
    row.infoHashV2 = some v2 →
    ∃ earlier later,
      writes = earlier ++ .update key (.setInfoHashV2 v2) :: later ∧
        Recorded earlier later key row v2
  media : ∀ earlier later key row, writes = earlier ++ later →
    (after earlier).row? key = some row → row.media ≠ none →
    ∃ next, (after writes).row? key = some next ∧ next.media ≠ none

/-- Over every sequence of writes the program makes, the items keep their
history. -/
theorem items_keep_history (called : ∀ write ∈ writes, write.AsCalled) :
    KeepsHistory writes where
  createdAt := by
    rintro earlier later key row rfl found
    exact row?_after_append
      (fun write key old same => (createdAt_onRow write key old).trans same)
      found rfl
  ownership := by
    rintro earlier write later key row next rfl found reached changed
    rw [after_append_singleton, row?_apply_of_some found] at reached
    cases reached
    exact ownership_onRow changed
  infoHash := by
    rintro earlier write later key row next rfl found reached known forgotten
    rw [after_append_singleton, row?_apply_of_some found] at reached
    cases reached
    exact infoHash_onRow known forgotten
  seeding := by
    intro key row found
    exact listed_after called found
  infoHashV2 := by
    intro key row v2 found held
    exact recorded_after called found held
  media := by
    rintro earlier later key row rfl found known
    exact row?_after_append (fun _ _ _ => media_onRow) found known

end Sequences

/-- A film shared, given its v2 hash, found again and then withdrawn. -/
theorem shared_film_keeps_history :
    let film : Discovered :=
      { source := .radarr, sourceId := 1, fileId := 7
        spec := .movie "Sintel" (some 2010), arrPath := "/films/Sintel.mkv"
        size := 9, ids := ⟨none, none, none, none, none, none, none, none⟩
        sceneName := none, originalPath := none, media := none
        scene := none }
    KeepsHistory
      [.upsert (film.intoSharedItem "Sintel") 5,
        .update film.key (.setSeeding "aa" none true none),
        .update film.key (.setInfoHashV2 "bb"),
        .upsert (film.intoSharedItem "Sintel.2010") 6,
        .update film.key (.setState .unshared none)] :=
  items_keep_history (by decide)

end ItemWrite

end Sharerr
