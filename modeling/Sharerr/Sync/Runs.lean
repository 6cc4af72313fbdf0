import Sharerr.Sync.Rules

/-!
# Runs of the sync loop beside its readers

Thread `0` is the syncer: it works off a list of jobs one after the other, and
each of them may stop after any number of its calls.  Every other thread is a
visitor: a feed read, whose two queries may be answered in either order, or
somebody who changes what the client holds.
-/

namespace Sharerr

namespace Sync

open Process (Prog)

/-- What a feed publishes of the rows it read. -/
def admitted (limits : PeerLimits) (rows : AudienceTable)
    (items : List SharedItem) : List SharedItem :=
  items.filter fun item => limits.admits item (rows.audiences item.key)

/-- `Store::seeding_items_for`. -/
def seedingItemsFor (itemsFirst : Bool) (scope : PeerScope)
    (limits : PeerLimits) : Program (Except StoreError (List SharedItem)) :=
  if itemsFirst then
    .call (.seedingItems scope) fun items =>
      Prog.proceed items fun items =>
        .call .audiences fun rows =>
          Prog.proceed rows fun rows => .done (.ok (admitted limits rows items))
  else
    .call .audiences fun rows =>
      Prog.proceed rows fun rows =>
        .call (.seedingItems scope) fun items =>
          Prog.proceed items fun items =>
            .done (.ok (admitted limits rows items))

/-- A pass, or an operator's request for one item. -/
inductive Job where
  | run (dryRun : Bool)
  | unshare (key : ItemKey)
  | rebuild (key : ItemKey)
deriving DecidableEq, Repr

inductive Visitor where
  | reads (itemsFirst : Bool) (scope : PeerScope) (limits : PeerLimits)
  | edits (torrents : List TorrentSummary)

/-- What a thread ends with. -/
inductive Outcome where
  | finished
  | fed (items : Except StoreError (List SharedItem))

end Sync

namespace Syncer

open Process (Prog)
open Sync

variable (syncer : Syncer)

/-- `unshare` and `rebuild` load the row first; an item already unshared is
left alone. -/
def job : Job → Program Unit
  | .run dryRun => (syncer.run dryRun).bind fun _ => .done ()
  | .unshare key =>
    .call (.get key) fun
      | .ok (some item) =>
        if item.state = .unshared then .done ()
        else (unshareOne item).bind fun _ => .done ()
      | _ => .done ()
  | .rebuild key =>
    .call (.get key) fun
      | .ok (some item) => (prepareRebuild item).bind fun _ => .done ()
      | _ => .done ()

/-- The jobs in order, each abandoned after its number of calls. -/
def jobs (work : List (Job × Nat)) : Program Unit :=
  Prog.fold (fun _ entry => ((syncer.job entry.1).cut entry.2).bind fun _ =>
    .done ()) () work

/-- The jobs in order, each to its end. -/
def allJobs (work : List Job) : Program Unit :=
  Prog.fold (fun _ job => syncer.job job) () work

/-- An operator's request for one item reads its row and nothing else. -/
theorem job_withdraws {job : Job} (single : ∀ dryRun, job ≠ .run dryRun) :
    (syncer.job job).Only Call.Withdraws := by
  cases job with
  | run dryRun => exact absurd rfl (single dryRun)
  | unshare key =>
    refine ⟨trivial, fun read => ?_⟩
    dsimp only
    split
    · split
      · trivial
      · exact (unshareOne_withdraws _).bind fun _ => trivial
    · trivial
  | rebuild key =>
    refine ⟨trivial, fun read => ?_⟩
    dsimp only
    split
    · exact (prepareRebuild_withdraws _).bind fun _ => trivial
    · trivial

end Syncer

namespace Sync

open Process (Prog)

def Visitor.program : Visitor → Program Outcome
  | .reads itemsFirst scope limits =>
    (seedingItemsFor itemsFirst scope limits).bind fun items =>
      .done (.fed items)
  | .edits torrents => .call (.edit torrents) fun _ => .done .finished

/-- The calls of a visitor. -/
def Call.IsVisit : Call → Prop
  | .seedingItems _ | .audiences | .edit _ => True
  | _ => False

theorem seedingItemsFor_visits (itemsFirst : Bool) (scope : PeerScope)
    (limits : PeerLimits) :
    (seedingItemsFor itemsFirst scope limits).Only Call.IsVisit := by
  unfold seedingItemsFor
  split <;>
    exact ⟨trivial, fun _ => Prog.Only.proceed _ fun _ =>
      ⟨trivial, fun _ => Prog.Only.proceed _ fun _ => trivial⟩⟩

theorem Visitor.visits (visitor : Visitor) :
    visitor.program.Only Call.IsVisit := by
  cases visitor with
  | reads itemsFirst scope limits =>
    exact (seedingItemsFor_visits ..).bind fun _ => trivial
  | edits torrents => exact ⟨trivial, fun _ => trivial⟩

abbrev Pool := Process.Pool Nat World Call Answer Outcome

abbrev Moment := Process.Moment Nat World Call Answer

abbrev Event := Process.Event Nat Call Answer

/-- The syncer with its jobs, beside its visitors. -/
def start (syncer : Syncer) (work : List (Job × Nat))
    (visitors : Nat → Visitor) (world : World) : Pool where
  world := world
  threads thread :=
    if thread = 0 then (syncer.jobs work).bind fun _ => .done .finished
    else (visitors thread).program

/-- Jobs under changing settings: each time another syncer starts, with its
own. -/
def sequence (work : List (Syncer × List (Job × Nat))) : Program Unit :=
  Prog.fold (fun _ entry => .call .renew fun _ => entry.1.jobs entry.2) ()
    work

/-- The same, where no job is abandoned. -/
def wholeSequence (work : List (Syncer × List Job)) : Program Unit :=
  Prog.fold (fun _ entry => .call .renew fun _ => entry.1.allJobs entry.2) ()
    work

/-- The syncers one after the other, beside the visitors. -/
def startChanging (work : List (Syncer × List (Job × Nat)))
    (visitors : Nat → Visitor) (world : World) : Pool where
  world := world
  threads thread :=
    if thread = 0 then (sequence work).bind fun _ => .done .finished
    else (visitors thread).program

def startWhole (work : List (Syncer × List Job))
    (visitors : Nat → Visitor) (world : World) : Pool where
  world := world
  threads thread :=
    if thread = 0 then (wholeSequence work).bind fun _ => .done .finished
    else (visitors thread).program

/-- What a thread was fed, once it has finished. -/
def fedTo (thread : Nat) (pool : Pool) : Option (List SharedItem) :=
  match (pool.threads thread).result? with
  | some (.fed (.ok items)) => some items
  | _ => none

theorem threads_of_fedTo {thread : Nat} {pool : Pool}
    {items : List SharedItem} (fed : fedTo thread pool = some items) :
    pool.threads thread = .done (.fed (.ok items)) := by
  unfold fedTo at fed
  split at fed
  · rename_i other ended
    cases fed
    exact Prog.eq_done_of_result? ended
  · cases fed

end Sync

end Sharerr
