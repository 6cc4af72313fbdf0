import Mathlib.Data.List.Dedup
import Mathlib.Data.List.Sort
import Sharerr.Items.Model
import Sharerr.Table.Keyed

/-!
# The `shared_items`, `item_origin` and `item_audience` tables

`(source, file_id)` is unique among the items, and a row is never deleted.
Every write to an existing item is one `UPDATE`, given here by its `SET`
clause; `updated_at` is left out.
-/

namespace Sharerr

structure ItemRow extends SharedItem where
  infoHashV2 : Option String
  shareUntil : Option Int
  stamp : Option FileStamp
deriving DecidableEq, Repr

/-- The `SET` clauses of the statements on one item, named for the function
that runs them. -/
inductive ItemUpdate where
  | setState (state : ShareState) (lastError : Option String)
  | setSeeding (infoHash : String) (announceTokenFp : Option String)
      (createdBySharerr : Bool) (isPrivate : Option Bool)
  | setInfoHashV2 (infoHashV2 : String)
  | confirmSeeding (announceTokenFp : Option String)
      (ratio ratioLimit : Option Ratio)
  | setRatio (ratio ratioLimit : Option Ratio)
  | setFileStamp (stamp : Option FileStamp)
  | setShareUntil (shareUntil : Option Int)
  | resetForRebuild
deriving DecidableEq, Repr

namespace ItemUpdate

/-- The columns each statement sets. -/
def apply (update : ItemUpdate) (row : ItemRow) : ItemRow :=
  match update with
  | .setState state lastError => { row with state, lastError }
  | .setSeeding infoHash announceTokenFp createdBySharerr isPrivate =>
    { row with
      infoHash := some infoHash
      infoHashV2 := none
      announceTokenFp
      createdBySharerr
      isPrivate := isPrivate.getD row.isPrivate
      state := .seeding
      lastError := none }
  | .setInfoHashV2 infoHashV2 => { row with infoHashV2 := some infoHashV2 }
  | .confirmSeeding announceTokenFp ratio ratioLimit =>
    { row with
      announceTokenFp
      achievedRatio := ratio
      ratioLimitReported := ratioLimit }
  | .setRatio ratio ratioLimit =>
    { row with achievedRatio := ratio, ratioLimitReported := ratioLimit }
  | .setFileStamp stamp => { row with stamp }
  | .setShareUntil shareUntil => { row with shareUntil }
  | .resetForRebuild =>
    { row with
      infoHash := none
      infoHashV2 := none
      announceTokenFp := none
      createdBySharerr := false
      isPrivate := true
      state := .pending
      lastError := none }

@[simp] theorem apply_key (update : ItemUpdate) (row : ItemRow) :
    (update.apply row).key = row.key := by
  cases update <;> rfl

end ItemUpdate

/-- What a rediscovered item leaves of its row: the file is described anew, the
torrent is not touched. -/
def ItemRow.rediscovered (row : ItemRow) (item : SharedItem) : ItemRow :=
  { row with
    sourceId := item.sourceId
    spec := item.spec
    releaseTitle := item.releaseTitle
    arrPath := item.arrPath
    size := Rust.saturatingI64 item.size
    ids := item.ids
    infoHash := item.infoHash.or row.infoHash
    announceTokenFp := item.announceTokenFp.or row.announceTokenFp
    media := item.media.or row.media
    achievedRatio := item.achievedRatio.or row.achievedRatio
    ratioLimitReported := item.ratioLimitReported.or row.ratioLimitReported
    state := item.state
    lastError := item.lastError }

@[simp] theorem ItemRow.rediscovered_key (row : ItemRow)
    (item : SharedItem) : (row.rediscovered item).key = row.key :=
  rfl

/-- The row of an item recorded for the first time. -/
def SharedItem.newRow (item : SharedItem) (id : Nat) (now : Int) :
    ItemRow :=
  { item with
    id := some id
    size := Rust.saturatingI64 item.size
    createdAt := some now
    infoHashV2 := none
    shareUntil := none
    stamp := none }

structure ItemTable where
  rows : List ItemRow
  nextId : Nat
  keys : (rows.map (·.key)).Nodup

namespace ItemTable

def empty : ItemTable where
  rows := []
  nextId := 1
  keys := by simp

def row? (table : ItemTable) (key : ItemKey) : Option ItemRow :=
  Keyed.find (·.key) table.rows key

def allItems (table : ItemTable) : List SharedItem :=
  table.rows.map (·.toSharedItem)

/-- `SELECT … WHERE source = ?1 AND file_id = ?2`. -/
def item? (table : ItemTable) (key : ItemKey) : Option SharedItem :=
  (table.row? key).map (·.toSharedItem)

def shareEnds (table : ItemTable) : List (ItemKey × Int) :=
  table.rows.filterMap fun row =>
    row.shareUntil.map fun until_ => (row.key, until_)

def fileStamps (table : ItemTable) : List (ItemKey × FileStamp) :=
  table.rows.filterMap fun row => row.stamp.map fun stamp => (row.key, stamp)

/-- `is_shared`. -/
def isShared (table : ItemTable) (infoHash : String) : Bool :=
  table.rows.any fun row =>
    (row.infoHash = some infoHash || row.infoHashV2 = some infoHash) &&
      (row.state = .seeding || row.state = .pending)

/-- `created_at DESC, id DESC`. -/
def newestFirst (left right : SharedItem) : Prop :=
  right.createdAt.getD 0 < left.createdAt.getD 0 ∨
    left.createdAt.getD 0 = right.createdAt.getD 0 ∧
      right.id.getD 0 ≤ left.id.getD 0

instance : DecidableRel newestFirst := fun _ _ =>
  inferInstanceAs (Decidable (_ ∨ _))

/-- A row the feed can list at all. -/
def inFeed (item : SharedItem) : Bool :=
  item.state = .seeding && item.infoHash.isSome

def seedingItems (table : ItemTable) (scope : PeerScope) : List SharedItem :=
  (table.allItems.filter fun item =>
    inFeed item && scope.admits item).insertionSort newestFirst

def update (table : ItemTable) (key : ItemKey) (update : ItemUpdate) :
    ItemTable where
  rows := Keyed.modify (·.key) table.rows key update.apply
  nextId := table.nextId
  keys := by
    rw [Keyed.map_modify update.apply_key]
    exact table.keys

/-- A key known already keeps its row, id and age. -/
def upsert (table : ItemTable) (item : SharedItem) (now : Int) : ItemTable :=
  if known : item.key ∈ table.rows.map (·.key) then
    { rows := Keyed.modify (·.key) table.rows item.key (·.rediscovered item)
      nextId := table.nextId
      keys := by
        rw [Keyed.map_modify fun row => row.rediscovered_key item]
        exact table.keys }
  else
    { rows := table.rows ++ [item.newRow table.nextId now]
      nextId := table.nextId + 1
      keys := Keyed.nodup_append table.keys known }

variable {table : ItemTable} {key other : ItemKey} {row : ItemRow}

theorem row?_eq_some_iff :
    table.row? key = some row ↔ row ∈ table.rows ∧ row.key = key :=
  Keyed.find_eq_some_iff table.keys

theorem row?_update (table : ItemTable) (key other : ItemKey)
    (update : ItemUpdate) :
    (table.update key update).row? other =
      if other = key then (table.row? other).map update.apply
      else table.row? other :=
  Keyed.find_modify _ _ _ _ _ update.apply_key

theorem row?_upsert (table : ItemTable) (item : SharedItem) (now : Int)
    (other : ItemKey) :
    (table.upsert item now).row? other =
      if other = item.key then
        some (((table.row? other).map (·.rediscovered item)).getD
          (item.newRow table.nextId now))
      else table.row? other := by
  unfold upsert
  split
  · rename_i known
    have found := Keyed.find_modify (·.key) table.rows item.key other
      (·.rediscovered item) fun _ => rfl
    refine found.trans ?_
    split
    · rename_i same
      subst same
      obtain ⟨row, member, named⟩ := List.mem_map.mp known
      have held := row?_eq_some_iff.mpr ⟨member, named⟩
      simp only [row?] at held ⊢
      simp [held]
    · rfl
  · rename_i fresh
    split
    · rename_i same
      subst same
      have absent : table.row? item.key = none :=
        Keyed.find_eq_none_iff.mpr fresh
      rw [absent]
      exact Keyed.find_append_new fresh
    · rename_i different
      exact Keyed.find_append_old different

/-- What an update keeps of the rows it may change, it keeps of all. -/
theorem forall_update {good : ItemRow → Prop} {update : ItemUpdate}
    (all : ∀ row ∈ table.rows, good row)
    (updated : ∀ row ∈ table.rows, row.key = key → good row →
      good (update.apply row)) :
    ∀ row ∈ (table.update key update).rows, good row := by
  intro row member
  obtain ⟨before, among, rfl | ⟨named, rfl⟩⟩ := Keyed.mem_modify member
  · exact all row among
  · exact updated before among named (all before among)

variable {item : SharedItem}

theorem forall_upsert {good : ItemRow → Prop} {now : Int}
    (all : ∀ row ∈ table.rows, good row)
    (renewed : ∀ row ∈ table.rows, row.key = item.key → good row →
      good (row.rediscovered item))
    (recorded : good (item.newRow table.nextId now)) :
    ∀ row ∈ (table.upsert item now).rows, good row := by
  unfold upsert
  split
  · intro row member
    obtain ⟨before, among, rfl | ⟨named, rfl⟩⟩ := Keyed.mem_modify member
    · exact all row among
    · exact renewed before among named (all before among)
  · intro row member
    rcases List.mem_append.mp member with old | new
    · exact all row old
    · rw [List.mem_singleton.mp new]
      exact recorded

theorem mem_seedingItems {scope : PeerScope} :
    item ∈ table.seedingItems scope ↔
      item ∈ table.allItems ∧ inFeed item = true ∧
        scope.admits item = true := by
  rw [seedingItems, List.mem_insertionSort, List.mem_filter,
    Bool.and_eq_true]

/-- An item read from the table is its row. -/
theorem row?_of_mem_allItems (member : item ∈ table.allItems) :
    ∃ row, table.row? item.key = some row ∧ row.toSharedItem = item := by
  obtain ⟨row, rowMember, rfl⟩ := List.mem_map.mp member
  exact ⟨row, row?_eq_some_iff.mpr ⟨rowMember, rfl⟩, rfl⟩

end ItemTable

abbrev OriginTable := List (ItemKey × ItemOrigin)

/-- `set_item_origin`: an origin without tiers keeps the ones stored for the
same friend. -/
def OriginTable.setItemOrigin (table : OriginTable) (key : ItemKey) :
    Option ItemOrigin → OriginTable
  | none => table.filter fun entry => entry.1 ≠ key
  | some origin =>
    let kept := match table.find? fun entry => entry.1 = key with
      | some (_, stored) =>
        if origin.upstream = [] ∧ stored.peerId = origin.peerId then
          { origin with upstream := stored.upstream }
        else origin
      | none => origin
    (table.filter fun entry => entry.1 ≠ key) ++ [(key, kept)]

/-- One row per friend an item is for. -/
abbrev AudienceTable := List (ItemKey × String)

/-- What a source says about its items that carry only `<tag>-<friend>`
tags. -/
abbrev SourceAudience := List (Int × List String)

/-- The friends `audience` names for `fileId`. -/
def SourceAudience.friends (audience : SourceAudience) (fileId : Int) :
    List String :=
  (audience.filter fun entry => entry.1 = fileId).flatMap (·.2)

namespace AudienceTable

/-- The friends an item is for; none where it is for everyone. -/
def friends (table : AudienceTable) (key : ItemKey) : List String :=
  (table.filter fun entry => entry.1 = key).map (·.2)

/-- `Store::audiences`: an item without rows has no entry. -/
def audiences (table : AudienceTable) : Audiences := fun key =>
  if table.friends key = [] then none else some (table.friends key)

/-- `replace_audience`.  Where the rows are already the wanted ones nothing is
written, which leaves the same rows. -/
def replaceAudience (table : AudienceTable) (source : MediaSource)
    (audience : SourceAudience) : AudienceTable :=
  (table.filter fun entry => entry.1.1 ≠ source) ++
    (audience.flatMap fun entry =>
      entry.2.map fun friend => ((source, entry.1), friend)).dedup

theorem mem_friends {table : AudienceTable} {key : ItemKey}
    {friend : String} :
    friend ∈ table.friends key ↔ (key, friend) ∈ table := by
  simp [friends]

theorem mem_friends_replaceAudience {table : AudienceTable}
    {source : MediaSource} {audience : SourceAudience} {key : ItemKey}
    {friend : String} :
    friend ∈ (table.replaceAudience source audience).friends key ↔
      if key.1 = source then friend ∈ audience.friends key.2
      else friend ∈ table.friends key := by
  obtain ⟨kind, fileId⟩ := key
  rw [mem_friends, replaceAudience, List.mem_append]
  by_cases same : kind = source
  · subst same
    simp only [List.mem_filter, List.mem_dedup, List.mem_flatMap,
      List.mem_map, SourceAudience.friends, if_true]
    simp
  · simp [same, Ne.symm same, mem_friends]

end AudienceTable

end Sharerr
