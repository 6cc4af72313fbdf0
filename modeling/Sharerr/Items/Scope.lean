import Sharerr.Items.Table
import Sharerr.Sqlite.Condition

/-!
# The scope rule in SQL

What a friend may see is decided twice: by `PeerScope::admits` over an item in
memory, and by a generated clause over the columns of its row.  The two select
the same rows.
-/

namespace Sharerr

inductive JsonValue where
  | null
  | number (value : Nat)
  | text (value : String)
deriving DecidableEq, Repr

abbrev JsonObject := List (String × JsonValue)

def JsonValue.ofOption : Option Nat → JsonValue
  | none => .null
  | some value => .number value

/-- The object `serde_json` writes for a spec, its tag in front. -/
def MediaSpec.json : MediaSpec → JsonObject
  | .episode seriesTitle season number =>
    [("kind", .text "episode"), ("series_title", .text seriesTitle),
      ("season", .number season), ("episode", .number number)]
  | .movie title year =>
    [("kind", .text "movie"), ("title", .text title),
      ("year", .ofOption year)]
  | .track artist album number =>
    [("kind", .text "track"), ("artist", .text artist),
      ("album", .text album), ("track", .ofOption number)]
  | .book author title =>
    [("kind", .text "book"), ("author", .text author),
      ("title", .text title)]

/-- `json_extract(…, '$.key')` where the value is a text. -/
def jsonExtract (object : JsonObject) (key : String) : Option String :=
  match object.find? fun field => field.1 = key with
  | some (_, .text value) => some value
  | _ => none

theorem jsonExtract_kind (spec : MediaSpec) :
    jsonExtract spec.json "kind" = some spec.kindTag := by
  cases spec with
  | episode seriesTitle season episode => rfl
  | movie title year => rfl
  | track artist album track => rfl
  | book author title => rfl

def ShareState.asStr : ShareState → String
  | .pending => "pending"
  | .seeding => "seeding"
  | .unshared => "unshared"
  | .failed => "failed"

namespace MediaSource

/-- `MediaSource::ALL`. -/
def every : List MediaSource :=
  [sonarr, radarr, lidarr, readarr, whisparr, directory]

def kindScoped : List MediaSource := [directory]

theorem mem_every (source : MediaSource) : source ∈ every := by
  cases source <;> decide

theorem asStr_inj {left right : MediaSource} :
    left.asStr = right.asStr ↔ left = right := by
  cases left <;> cases right <;> decide

end MediaSource

/-- What the clause reads of a row. -/
inductive ScopeColumn where
  | state
  | infoHash
  | source
  /-- `json_extract(spec_json, '$.kind')` -/
  | specKind
deriving DecidableEq, Repr

def SharedItem.scopeColumn (item : SharedItem) : ScopeColumn → Option String
  | .state => some item.state.asStr
  | .infoHash => item.infoHash
  | .source => some item.source.asStr
  | .specKind => jsonExtract item.spec.json "kind"

structure ScopeFilter where
  clause : Sqlite.Condition ScopeColumn
  binds : List String

namespace ScopeFilter

open Sqlite.Condition

def new (scope : PeerScope) : ScopeFilter :=
  let allowed := (MediaSource.every.filter scope.allows).map (·.asStr)
  let kindScoped := MediaSource.kindScoped.map (·.asStr)
  let inScope := oneOf .source allowed.length
  let (inScope, kindBinds) := match scope.directoryKind with
    | none => (inScope, [])
    | some kind =>
      (either inScope
        (both (oneOf .source kindScoped.length) (equals .specKind)),
        kindScoped ++ [kind])
  { clause := both (both (equals .state) (notNull .infoHash)) inScope
    binds := [ShareState.seeding.asStr] ++ (allowed ++ kindBinds) }

def selects (filter : ScopeFilter) (item : SharedItem) : Bool :=
  filter.clause.holds item.scopeColumn filter.binds

variable {scope : PeerScope} {item : SharedItem}

theorem state_clause :
    (both (equals ScopeColumn.state) (notNull .infoHash)).holds
        item.scopeColumn [ShareState.seeding.asStr] =
      ItemTable.inFeed item := by
  have seeding : (item.state.asStr = ShareState.seeding.asStr) ↔
      item.state = .seeding := by
    cases item.state <;> decide
  simp [holds, slots, SharedItem.scopeColumn, ItemTable.inFeed, seeding]

theorem allowed_clause :
    (oneOf .source
        ((MediaSource.every.filter scope.allows).map (·.asStr)).length).holds
        item.scopeColumn
        ((MediaSource.every.filter scope.allows).map (·.asStr)) =
      scope.allows item.source := by
  rw [holds_oneOf, Bool.eq_iff_iff, List.any_eq_true]
  constructor
  · intro found
    obtain ⟨name, named, same⟩ := found
    obtain ⟨source, allowed, rfl⟩ := List.mem_map.mp named
    have equal : item.source = source := by
      simpa [SharedItem.scopeColumn, MediaSource.asStr_inj] using same
    rw [equal]
    exact (List.mem_filter.mp allowed).2
  · intro allowed
    refine ⟨item.source.asStr, List.mem_map.mpr ⟨item.source, ?_, rfl⟩, ?_⟩
    · exact List.mem_filter.mpr ⟨MediaSource.mem_every _, allowed⟩
    · simp [SharedItem.scopeColumn]

theorem kind_clause (kind : String) :
    (both (oneOf ScopeColumn.source
        (MediaSource.kindScoped.map (·.asStr)).length)
        (equals .specKind)).holds item.scopeColumn
        (MediaSource.kindScoped.map (·.asStr) ++ [kind]) =
      (item.source = .directory && some kind = some item.spec.kindTag) := by
  rw [holds_both rfl, holds_oneOf]
  simp [holds, SharedItem.scopeColumn, jsonExtract_kind,
    MediaSource.kindScoped, MediaSource.asStr_inj, eq_comm]

/-- The clause selects what the feed can list and the scope admits. -/
theorem selects_new (scope : PeerScope) (item : SharedItem) :
    (new scope).selects item =
      (ItemTable.inFeed item && scope.admits item) := by
  unfold selects new PeerScope.admits
  cases kind : scope.directoryKind with
  | none =>
    simp only [List.append_nil]
    rw [holds_both rfl, state_clause, allowed_clause]
    simp
  | some kind =>
    simp only
    rw [holds_both rfl, state_clause, holds_either rfl, allowed_clause,
      kind_clause]

end ScopeFilter

/-- `seeding_items`, by its statement. -/
def ItemTable.selectSeeding (table : ItemTable) (scope : PeerScope) :
    List SharedItem :=
  (table.allItems.filter (ScopeFilter.new scope).selects).insertionSort
    ItemTable.newestFirst

theorem ItemTable.selectSeeding_eq (table : ItemTable) (scope : PeerScope) :
    table.selectSeeding scope = table.seedingItems scope := by
  unfold selectSeeding seedingItems
  congr 1
  apply List.filter_congr
  intro item _
  exact ScopeFilter.selects_new scope item

end Sharerr
