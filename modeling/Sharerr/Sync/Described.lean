import Mathlib.Algebra.Group.Nat.Defs
import Sharerr.Sync.Reports

/-!
# The description of a shared file

A pass describes an item anew whenever it shares it: where the file is, how
large it is, what it is.  An item that is seeding already keeps the description
it has, whatever the source says by now.
-/

namespace Sharerr

/-- What a row says about the file. -/
structure Description where
  arrPath : String
  size : Nat
  spec : MediaSpec
  ids : ExternalIds
  media : Option MediaMeta
deriving DecidableEq, Repr

def SharedItem.description (item : SharedItem) : Description :=
  ⟨item.arrPath, item.size, item.spec, item.ids, item.media⟩

/-- Where the source knew nothing of the media, any will do. -/
structure Description.Of (description : Description) (item : Discovered) :
    Prop where
  arrPath : description.arrPath = item.arrPath
  size : description.size = item.size
  spec : description.spec = item.spec
  ids : description.ids = item.ids
  media : ∀ media, item.media = some media → description.media = some media

/-- What the source says about the file. -/
def Discovered.description (item : Discovered) : Description :=
  ⟨item.arrPath, item.size, item.spec, item.ids, item.media⟩

namespace Sync

open Process (Prog Safe Protocol)
open Process.Prog (Only)

def World.description? (world : World) (key : ItemKey) : Option Description :=
  (world.items.row? key).map (·.description)

/-- The row describes the item as it was reported. -/
def Described (item : Discovered) (world : World) : Prop :=
  ∃ description, world.description? item.key = some description ∧
    description.Of item

/-- The calls that record an item under `key`. -/
def Call.Records (key : ItemKey) : Call → Prop
  | .upsert item _ => item.key = key
  | _ => False

variable {request : Call} {world : World} {item : Discovered}

/-- A call that records the item, if at all, as it was reported. -/
def Call.Agrees (item : Discovered) (request : Call) : Prop :=
  request.Records item.key → ∃ other title now,
    request = .upsert (Discovered.intoSharedItem other title) now ∧
      other.description.Of item

/-- The calls that record no item. -/
def Call.Unrecorded : Call → Prop
  | .upsert .. => False
  | _ => True

theorem Call.Unrecorded.not_records {key : ItemKey}
    (unrecorded : request.Unrecorded) : ¬ request.Records key := by
  cases request with
  | upsert => exact unrecorded.elim
  | _ => exact id

theorem Call.Withdraws.unrecorded (withdraws : request.Withdraws) :
    request.Unrecorded := by
  cases request with
  | upsert => exact withdraws.elim
  | _ => trivial

theorem Call.IsQuiet.unrecorded (quiet : request.IsQuiet) :
    request.Unrecorded := by
  cases request with
  | upsert => exact quiet.elim
  | _ => trivial

theorem Call.agrees_of_not_records (other : ¬ request.Records item.key) :
    request.Agrees item :=
  fun records => absurd records other

end Sync

namespace Syncer

open Process (Prog)
open Process.Prog (Only)
open Sync

variable (syncer : Syncer)

end Syncer

namespace Sync

open Process (Prog Safe Protocol Responder)
open Process.Prog (Only Returns)

section Turn

variable {condition : Process.Condition Nat World Call Answer}
variable {syncer : Syncer} {pass : PassContext}
variable {readings : Syncer.Readings} {item : Discovered} {moment : Moment}

end Turn

section Loop

variable {condition : Process.Condition Nat World Call Answer}
variable {syncer : Syncer} {pass : PassContext}
variable {readings : Syncer.Readings} {items : List Discovered}
variable {item : Discovered} {moment : Moment}

variable (pass readings items item) in
/-- An item the pass shares anew, which nothing else reported in it
contradicts. -/
structure Fresh : Prop where
  going : readings.isOver item.key = false
  unsettled : pass.settled (knownItems readings.known item.key) = none
  fits : item.size < 2 ^ 63
  agreed : ∀ other ∈ items, other.key = item.key →
    other.description = item.description

variable (pass readings items) in
/-- What the rows say once the pass is through with the items `done`. -/
structure Follows (done : List Discovered) (report : SyncReport)
    (world : World) : Prop where
  fresh : ∀ item ∈ done, Fresh pass readings items item →
    report.failed = 0 → Described item world
  settled : ∀ item ∈ items, ∀ known hash reported,
    pass.settled (knownItems readings.known item.key) =
        some (known, hash, reported) →
      world.description? item.key = some known.description

variable (pass readings items) in
/-- A call that contradicts no item the pass is through with. -/
structure Call.Follows (done : List Discovered) (request : Call) : Prop where
  fresh : ∀ item ∈ done, Fresh pass readings items item →
    request.Agrees item
  settled : ∀ item ∈ items,
    (pass.settled (knownItems readings.known item.key)).isSome →
      ¬ request.Records item.key

variable {done : List Discovered} {report : SyncReport}

theorem Call.Unrecorded.follows {request : Call}
    (unrecorded : request.Unrecorded) :
    request.Follows pass readings items done :=
  ⟨fun _ _ _ => agrees_of_not_records unrecorded.not_records,
    fun _ _ _ => unrecorded.not_records⟩

variable (syncer) in
/-- A report whose pass left the rows so. -/
def Followed (report : SyncReport) (moment : Moment) : Prop :=
  ∃ pass readings items, Told pass readings items moment.past ∧
    Asked syncer.sources items moment.past ∧
      (readings.known.map (·.key)).Nodup ∧
        Follows pass readings items items report moment.world

theorem Followed.mono {before after : Moment}
    (followed : Followed syncer report before)
    (told : ∀ pass readings items, Told pass readings items before.past →
      Told pass readings items after.past)
    (asked : ∀ items, Asked syncer.sources items before.past →
      Asked syncer.sources items after.past)
    (items : after.world.items = before.world.items) :
    Followed syncer report after := by
  obtain ⟨pass, readings, discovered, heard, questions, distinct, follows⟩ :=
    followed
  refine ⟨pass, readings, discovered, told _ _ _ heard, asked _ questions,
    distinct, ?_⟩
  constructor
  · intro item member fresh none_
    have said := follows.fresh item member fresh none_
    rwa [Described, World.description?, ← items] at said
  · intro item member known hash reported settled
    have said := follows.settled item member known hash reported settled
    rwa [World.description?, ← items] at said

end Loop

/-- A source reported the item to the pass, and it is not over. -/
structure Reported (syncer : Syncer) (past : List Event) (item : Discovered) :
    Prop where
  listed : ∃ kind ∈ syncer.sources, ∃ scan,
    Heard past (.discover kind) (.ok scan) ∧ item ∈ scan.items
  going : ∃ ends now, Heard past .shareEnds (.ok ends) ∧
    Heard past .nowEpoch now ∧
      (Rust.collected ends item.key).any (· ≤ now) = false

section Heard

variable {past : List Event} {pass : PassContext}
variable {readings : Syncer.Readings} {items : List Discovered}
variable {item : Discovered} {row : SharedItem}

end Heard

/-- Whether the last pass was told of the item, and not to end it. -/
def reports (past : List Event) (item : Discovered) : Bool :=
  (match lastAnswer past (.discover item.source) with
    | some (.ok scan) => item ∈ scan.items
    | _ => false) &&
  (match lastAnswer past .shareEnds, lastAnswer past .nowEpoch with
    | some (.ok ends), some now =>
      !(Rust.collected ends item.key).any (· ≤ now)
    | _, _ => false)

end Sync

end Sharerr
