import Sharerr.Feed.Search
import Sharerr.Friends.Limits
import Sharerr.Items.Scope

/-!
# What a friend's feed is made of

The feed of a friend, the figures next to its name and the answer to each of
its searches are made of the same rows: those that are seeding under an info
hash and that its scope and limits let through.  Nothing else in the store
has a part in them.
-/

namespace Sharerr

/-- The items and their audiences, with what the schema says of the columns
that order them. -/
structure Library where
  items : ItemTable
  audience : AudienceTable
  ids : (items.rows.map (·.id)).Nodup
  below : ∀ row ∈ items.rows, ∃ id, row.id = some id ∧ id < items.nextId

namespace Library

open Friends (Friend)

def empty : Library where
  items := ItemTable.empty
  audience := []
  ids := List.nodup_nil
  below := by
    intro row member
    cases member

def upsert (library : Library) (item : SharedItem) (now : Int) : Library where
  items := library.items.upsert item now
  audience := library.audience
  ids := by
    unfold ItemTable.upsert
    split
    · have keeps : ∀ row : ItemRow, (row.rediscovered item).id = row.id :=
        fun _ => rfl
      dsimp only
      rw [Keyed.map_modify keeps]
      exact library.ids
    · apply Keyed.nodup_append library.ids
      intro member
      obtain ⟨row, among, same⟩ := List.mem_map.mp member
      obtain ⟨id, named, small⟩ := library.below row among
      rw [named] at same
      cases same
      exact Nat.lt_irrefl _ small
  below := by
    unfold ItemTable.upsert
    split
    · intro row member
      obtain ⟨before, among, rfl | ⟨-, rfl⟩⟩ := Keyed.mem_modify member
      · exact library.below _ among
      · exact library.below before among
    · intro row member
      rcases List.mem_append.mp member with old | new
      · obtain ⟨id, named, small⟩ := library.below row old
        exact ⟨id, named, Nat.lt_succ_of_lt small⟩
      · rw [List.mem_singleton.mp new]
        exact ⟨_, rfl, Nat.lt_succ_self _⟩

def update (library : Library) (key : ItemKey) (update : ItemUpdate) :
    Library where
  items := library.items.update key update
  audience := library.audience
  ids := by
    have keeps : ∀ row, (update.apply row).id = row.id := by
      intro row
      cases update <;> rfl
    unfold ItemTable.update
    rw [Keyed.map_modify keeps]
    exact library.ids
  below := by
    intro row member
    obtain ⟨before, among, rfl | ⟨-, rfl⟩⟩ := Keyed.mem_modify member
    · exact library.below _ among
    · obtain ⟨id, named, small⟩ := library.below before among
      refine ⟨id, ?_, small⟩
      rw [← named]
      cases update <;> rfl

def replaceAudience (library : Library) (source : MediaSource)
    (audience : SourceAudience) : Library :=
  { library with audience := library.audience.replaceAudience source audience }

def admits (library : Library) (limits : PeerLimits) (item : SharedItem) :
    Bool :=
  limits.admits item (library.audience.audiences item.key)

def seedingItemsFor (library : Library) (scope : PeerScope)
    (limits : PeerLimits) : List SharedItem :=
  (library.items.selectSeeding scope).filter (library.admits limits)

structure SeedingSummary where
  count : Nat
  size : Int
deriving DecidableEq, Repr

def SeedingSummary.count1 (summary : SeedingSummary) (item : SharedItem) :
    SeedingSummary :=
  ⟨summary.count + 1,
    Rust.saturatingAdd summary.size (Rust.saturatingI64 item.size)⟩

def seedingSummaries (library : Library) (friends : List Friend) :
    List SeedingSummary :=
  let items := library.items.selectSeeding .all
  friends.map fun friend =>
    (items.filter fun item =>
      friend.scope.admits item && library.admits friend.limits item).foldl
      SeedingSummary.count1 ⟨0, 0⟩

end Library

namespace Torznab

/-- What a search reads besides its own parameters: the store or why it is not
open, with what reading it gives, and the settings of the moment. -/
structure ServeState where
  store : Except String (Except StoreError Library)
  magnetLinks : Bool
  trackerToken : Option String
  /-- The endpoints held recently, the current one first. -/
  recent : List String
  publicBaseUrl : String

/-- What a search matched, for every renderer. -/
structure Matched extends Feed.Matched where
  base : String
  downloadToken : Option String
  /-- How many items were considered, before filtering. -/
  total : Nat

/-- What a friend may see, with links that carry the friend's own token. -/
def collect (unicode : Unicode) (urls : Urls) (state : ServeState)
    (query : SearchQuery) (scope : PeerScope) (limits : PeerLimits)
    (peerToken : String) : Except (Nat × String) Matched := do
  let read ← state.store.mapError fun reason =>
    (503, "sharerr is not ready: " ++ reason)
  let library ← read.mapError fun _ => (500, "could not read the library")
  let items := library.seedingItemsFor scope limits
  let token := state.trackerToken.map fun _ => peerToken
  let announces := state.recent.filterMap fun base =>
    (announceUrl urls base token).toOption
  return { Feed.collect (query.keeps unicode) state.magnetLinks announces
      items with
    base := state.publicBaseUrl
    downloadToken := token
    total := items.length }

end Torznab

namespace Library

open Friends (Friend)

/-- An item of the store for the feed of a friend. -/
def Offers (library : Library) (scope : PeerScope) (limits : PeerLimits)
    (item : SharedItem) : Prop :=
  item ∈ library.items.allItems ∧ item.state = .seeding ∧
    item.infoHash.isSome = true ∧ scope.admits item = true ∧
      library.admits limits item = true

variable {library : Library} {scope : PeerScope} {limits : PeerLimits}

theorem mem_seedingItemsFor {item : SharedItem} :
    item ∈ library.seedingItemsFor scope limits ↔
      library.Offers scope limits item := by
  rw [seedingItemsFor, List.mem_filter, ItemTable.selectSeeding_eq,
    ItemTable.mem_seedingItems]
  simp only [Offers, ItemTable.inFeed, Bool.and_eq_true, decide_eq_true_eq]
  tauto

instance : Std.Total ItemTable.newestFirst where
  total left right := by
    unfold ItemTable.newestFirst
    omega

instance : IsTrans SharedItem ItemTable.newestFirst where
  trans left middle right first second := by
    unfold ItemTable.newestFirst at *
    omega

theorem eq_of_newestFirst {left right : SharedItem}
    (leftStored : left ∈ library.items.allItems)
    (rightStored : right ∈ library.items.allItems)
    (before : ItemTable.newestFirst left right)
    (after : ItemTable.newestFirst right left) : left = right := by
  obtain ⟨leftRow, leftAmong, rfl⟩ := List.mem_map.mp leftStored
  obtain ⟨rightRow, rightAmong, rfl⟩ := List.mem_map.mp rightStored
  obtain ⟨leftId, leftNamed, -⟩ := library.below leftRow leftAmong
  obtain ⟨rightId, rightNamed, -⟩ := library.below rightRow rightAmong
  have same : leftRow.id = rightRow.id := by
    unfold ItemTable.newestFirst at before after
    rw [leftNamed, rightNamed] at before after ⊢
    simp only [Option.getD_some] at before after
    congr 1
    omega
  rw [List.inj_on_of_nodup_map library.ids leftAmong rightAmong same]

theorem allItems_nodup : library.items.allItems.Nodup := by
  apply List.Nodup.of_map SharedItem.key
  rw [ItemTable.allItems, List.map_map]
  exact library.items.keys

theorem selectSeeding_sorted :
    (library.items.selectSeeding scope).Pairwise ItemTable.newestFirst :=
  List.pairwise_insertionSort _ _

theorem selectSeeding_nodup : (library.items.selectSeeding scope).Nodup :=
  (List.perm_insertionSort _ _).nodup_iff.mpr (allItems_nodup.filter _)

theorem seedingItemsFor_sorted :
    (library.seedingItemsFor scope limits).Pairwise ItemTable.newestFirst :=
  selectSeeding_sorted.filter _

theorem seedingItemsFor_nodup :
    (library.seedingItemsFor scope limits).Nodup :=
  selectSeeding_nodup.filter _

/-- A list of items of the store in the order of the feed is known by its
members. -/
theorem eq_of_same_members (library : Library)
    {items others : List SharedItem}
    (stored : ∀ item ∈ items, item ∈ library.items.allItems)
    (sorted : items.Pairwise ItemTable.newestFirst) (distinct : items.Nodup)
    (otherSorted : others.Pairwise ItemTable.newestFirst)
    (otherDistinct : others.Nodup)
    (same : ∀ item, item ∈ items ↔ item ∈ others) : items = others := by
  have perm : items.Perm others :=
    (List.perm_ext_iff_of_nodup distinct otherDistinct).mpr same
  apply List.Perm.eq_of_pairwise _ sorted otherSorted perm
  intro left right leftMember rightMember before after
  exact eq_of_newestFirst (stored left leftMember)
    (stored right ((same right).mpr rightMember)) before after

theorem seedingItemsFor_eq_of_offers {other : Library}
    (same : ∀ item, library.Offers scope limits item ↔
      other.Offers scope limits item) :
    library.seedingItemsFor scope limits =
      other.seedingItemsFor scope limits := by
  apply library.eq_of_same_members _ seedingItemsFor_sorted
    seedingItemsFor_nodup seedingItemsFor_sorted seedingItemsFor_nodup
  · intro item
    rw [mem_seedingItemsFor, mem_seedingItemsFor]
    exact same item
  · intro item listed
    exact (mem_seedingItemsFor.mp listed).1

theorem foldl_count1 (items : List SharedItem) (count total : Nat) :
    items.foldl SeedingSummary.count1 ⟨count, min Rust.i64Max total⟩ =
      ⟨count + items.length,
        min Rust.i64Max (total + (items.map (·.size)).sum : Nat)⟩ := by
  induction items generalizing count total with
  | nil => simp
  | cons item items ih =>
    have added : Rust.saturatingAdd (min Rust.i64Max total)
        (Rust.saturatingI64 item.size) =
          min Rust.i64Max (total + item.size : Nat) := by
      have max : Rust.i64Max = 9223372036854775807 := rfl
      have min : Rust.i64Min = -9223372036854775808 := rfl
      rw [Rust.saturatingAdd, Rust.saturatingI64]
      push_cast
      omega
    rw [List.foldl_cons, SeedingSummary.count1, added, ih]
    simp only [List.length_cons, List.map_cons, List.sum_cons]
    rw [show count + 1 + items.length = count + (items.length + 1) by omega,
      Nat.add_assoc]

/-- The items counted for a friend are those its feed serves. -/
theorem filter_all_eq (friend : Friend) :
    ((library.items.selectSeeding .all).filter fun item =>
      friend.scope.admits item && library.admits friend.limits item) =
        library.seedingItemsFor friend.scope friend.limits := by
  apply library.eq_of_same_members _ (selectSeeding_sorted.filter _)
    (selectSeeding_nodup.filter _) seedingItemsFor_sorted seedingItemsFor_nodup
  · intro item
    rw [mem_seedingItemsFor, List.mem_filter, ItemTable.selectSeeding_eq,
      ItemTable.mem_seedingItems]
    simp only [Offers, ItemTable.inFeed, PeerScope.admits, PeerScope.allows,
      Bool.and_eq_true, decide_eq_true_eq]
    tauto
  · intro item listed
    have among := List.mem_of_mem_filter listed
    rw [ItemTable.selectSeeding_eq] at among
    exact (ItemTable.mem_seedingItems.mp among).1

theorem seedingSummaries_eq (friends : List Friend) :
    library.seedingSummaries friends = friends.map fun friend =>
      ⟨(library.seedingItemsFor friend.scope friend.limits).length,
        min Rust.i64Max (((library.seedingItemsFor friend.scope
          friend.limits).map (·.size)).sum : Nat)⟩ := by
  unfold seedingSummaries
  apply List.map_congr_left
  intro friend _
  rw [filter_all_eq friend]
  have start : min Rust.i64Max ((0 : Nat) : Int) = 0 := by decide
  have folded := foldl_count1
    (library.seedingItemsFor friend.scope friend.limits) 0 0
  rw [start] at folded
  rw [folded, Nat.zero_add, Nat.zero_add]

/-- The feed of a friend is the rows it may see, newest first; the figures
next to its name are theirs; and stores that agree on them answer its searches
alike. -/
theorem feed_decided_by_offers (library : Library) (scope : PeerScope)
    (limits : PeerLimits) :
    ((∀ item, item ∈ library.seedingItemsFor scope limits ↔
        library.Offers scope limits item) ∧
      (library.seedingItemsFor scope limits).Nodup ∧
        (library.seedingItemsFor scope limits).Pairwise
          ItemTable.newestFirst) ∧
    (∀ friends, library.seedingSummaries friends = friends.map fun friend =>
      ⟨(library.seedingItemsFor friend.scope friend.limits).length,
        min Rust.i64Max (((library.seedingItemsFor friend.scope
          friend.limits).map (·.size)).sum : Nat)⟩) ∧
    ∀ other : Library,
      (∀ item, library.Offers scope limits item ↔
        other.Offers scope limits item) →
      ∀ unicode urls (state : Torznab.ServeState) query peerToken,
        Torznab.collect unicode urls { state with store := .ok (.ok library) }
            query scope limits peerToken =
          Torznab.collect unicode urls { state with store := .ok (.ok other) }
            query scope limits peerToken := by
  refine ⟨⟨fun _ => mem_seedingItemsFor, seedingItemsFor_nodup,
    seedingItemsFor_sorted⟩, seedingSummaries_eq, ?_⟩
  intro other same unicode urls state query peerToken
  simp only [Torznab.collect, Except.mapError, bind, Except.bind]
  rw [seedingItemsFor_eq_of_offers same]

/-- A file under its info hash. -/
def seeding (fileId : Int) (source : MediaSource) (spec : MediaSpec) :
    SharedItem where
  id := none
  source := source
  sourceId := 1
  fileId := fileId
  spec := spec
  releaseTitle := "Lanternwick"
  arrPath := "/media/lanternwick.mkv"
  size := 1000
  ids := noIds
  infoHash := some "aa"
  announceTokenFp := none
  createdBySharerr := false
  state := .seeding
  lastError := none
  createdAt := none
  media := none
  achievedRatio := none
  ratioLimitReported := none
  isPrivate := true

def episodeOnly : Library :=
  empty.upsert (seeding 1 .sonarr (.episode "Lanternwick" 1 2)) 10

def filmToo : Library :=
  episodeOnly.upsert (seeding 2 .radarr (.movie "Lanternwick" none)) 20

def samLimits : PeerLimits := ⟨none, none, some "sam"⟩

theorem same_for_series {item : SharedItem} :
    episodeOnly.Offers .tv samLimits item ↔
      filmToo.Offers .tv samLimits item := by
  have before : episodeOnly.seedingItemsFor .tv samLimits =
      filmToo.seedingItemsFor .tv samLimits := by
    decide +kernel
  rw [← mem_seedingItemsFor, before, mem_seedingItemsFor]

/-- A search that would match the film as well. -/
def forLanternwick : Torznab.SearchQuery :=
  ⟨some "lantern", none, none, none, none, none, none⟩

def onlyAscii : Torznab.Unicode := ⟨Rust.toAsciiLowercase⟩

def asWritten : Urls := ⟨.ok, fun _ => none⟩

def asServed (library : Library) : Torznab.ServeState :=
  ⟨.ok (.ok library), false, none, [], "http://sharerr.example"⟩

theorem film_leaves_no_trace :
    Torznab.collect onlyAscii asWritten (asServed episodeOnly) forLanternwick
        .tv samLimits "5f" =
      Torznab.collect onlyAscii asWritten (asServed filmToo) forLanternwick
        .tv samLimits "5f" ∧
    (Torznab.collect onlyAscii asWritten (asServed filmToo) forLanternwick
      .tv samLimits "5f").toOption.map (fun matched =>
        (matched.items.length, matched.total)) = some (1, 1) ∧
    (Torznab.collect onlyAscii asWritten (asServed filmToo) forLanternwick
      .all samLimits "5f").toOption.map (fun matched =>
        (matched.items.length, matched.total)) = some (2, 2) := by
  refine ⟨?_, by decide +kernel, by decide +kernel⟩
  exact (feed_decided_by_offers episodeOnly .tv samLimits).2.2 filmToo
    (fun _ => same_for_series) onlyAscii asWritten (asServed episodeOnly)
    forLanternwick "5f"

end Library

end Sharerr
