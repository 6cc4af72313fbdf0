import Sharerr.Sync.Alone
import Sharerr.Sync.Passes

/-!
# Passes that report

A pass ends with a report of what it did.  What a pass read of the items is
what the table holds until the pass itself writes to it: beside the syncer
nobody writes to the store.
-/

namespace Sharerr

namespace Sync

open Process
open Process.Prog (Returns)

/-- Watching an item at most flags it. -/
structure Watched (report after : SyncReport) : Prop where
  counts : after = { report with
    stopped := after.stopped
    removed := after.removed
    changed := after.changed }
  stopped : report.stopped ⊆ after.stopped
  removed : report.removed ⊆ after.removed
  changed : report.changed ⊆ after.changed

theorem Watched.refl (report : SyncReport) : Watched report report :=
  ⟨rfl, List.Subset.refl _, List.Subset.refl _, List.Subset.refl _⟩

section Settles

variable {syncer : Syncer} {protocol : Protocol Nat World Call Answer}
variable {post : Except String SyncReport → Moment → Prop} {moment : Moment}

end Settles

/-- The rule that the items are as the syncer read them until it writes, over
the runs whose steps meet `condition`. -/
def recording (condition : Process.Condition Nat World Call Answer) :
    Protocol Nat World Call Answer where
  perform := perform
  condition := condition
  invariant moment := ∀ rows, Unwritten moment.past rows →
    moment.world.items.allItems = rows
  guarantee thread before after := thread ≠ 0 →
    after.world = { before.world with client := after.world.client }

section Recording

variable {condition : Process.Condition Nat World Call Answer}
variable {syncer : Syncer} {moment : Moment} {α : Type}

theorem perform_visit (thread : Nat) {world after : World}
    {request : Call} {answer : Answer request} (visit : request.IsVisit)
    (performed : perform thread world request answer = some after) :
    after = { world with client := after.client } := by
  cases request with
  | seedingItems | audiences =>
    rw [reading_eq_some performed]
  | edit torrents =>
    cases performed
    rfl
  | _ => exact visit.elim

end Recording

end Sync

end Sharerr
