import Sharerr.Sync.Runs

/-!
# What a pass has been told

A pass reads the store, the client and the sources once, at its start, and
works with those readings to its end.  A rule about what the seeder asks of the
client, or files in its cache, only has to be shown for the two programs of the
seeder that do so, at a moment at which the readings of the pass are the last
ones it heard; the rest of a pass makes no such request.
-/

namespace Sharerr

namespace Sync

open Process

/-- The syncer's last such request got this answer. -/
def Heard (past : List Event) (request : Call) (answer : Answer request) :
    Prop :=
  ∃ earlier later, past = earlier ++ ⟨0, request, answer⟩ :: later ∧
    ∀ event ∈ later, event.thread = 0 → event.request ≠ request

theorem Heard.last (past : List Event) (request : Call)
    (answer : Answer request) :
    Heard (past ++ [⟨0, request, answer⟩]) request answer :=
  ⟨past, [], rfl, fun _ member => absurd member List.not_mem_nil⟩

variable {request : Call} {answer : Answer request} {event : Event}
  {past : List Event} {rows : List SharedItem}

theorem Heard.append (heard : Heard past request answer)
    (other : event.thread = 0 → event.request ≠ request) :
    Heard (past ++ [event]) request answer := by
  obtain ⟨earlier, later, rfl, silent⟩ := heard
  refine ⟨earlier, later ++ [event], by simp, ?_⟩
  intro among member
  rcases List.mem_append.mp member with old | new
  · exact silent among old
  · rw [List.mem_singleton.mp new]
    exact other

theorem Heard.mem (heard : Heard past request answer) :
    (⟨0, request, answer⟩ : Event) ∈ past := by
  obtain ⟨earlier, later, rfl, -⟩ := heard
  exact List.mem_append_right _ List.mem_cons_self

/-- A list is split at the last entry of a kind in only one way. -/
theorem split_at_last {α : Type} (Marked : α → Prop)
    {earlier later before after : List α} {one other : α}
    (same : earlier ++ one :: later = before ++ other :: after)
    (marked : Marked one) (markedToo : Marked other)
    (unmarked : ∀ entry ∈ later, ¬ Marked entry)
    (unmarkedToo : ∀ entry ∈ after, ¬ Marked entry) :
    earlier = before ∧ one = other ∧ later = after := by
  rcases List.append_eq_append_iff.mp same with
    ⟨between, rfl, rest⟩ | ⟨between, rfl, rest⟩
  · cases between with
    | nil =>
      obtain ⟨rfl, rfl⟩ := List.cons.inj rest
      exact ⟨(List.append_nil _).symm, rfl, rfl⟩
    | cons entry entries =>
      obtain ⟨rfl, rfl⟩ := List.cons.inj rest
      exact absurd markedToo (unmarked _
        (List.mem_append_right _ List.mem_cons_self))
  · cases between with
    | nil =>
      obtain ⟨rfl, rfl⟩ := List.cons.inj rest
      exact ⟨List.append_nil _, rfl, rfl⟩
    | cons entry entries =>
      obtain ⟨rfl, rfl⟩ := List.cons.inj rest
      exact absurd marked (unmarkedToo _
        (List.mem_append_right _ List.mem_cons_self))

/-- There is only one last answer. -/
theorem Heard.unique {one other : Answer request}
    (first : Heard past request one) (second : Heard past request other) :
    one = other := by
  obtain ⟨earlier, later, rfl, silent⟩ := first
  obtain ⟨before, after, same, quiet⟩ := second
  obtain ⟨-, event, -⟩ := split_at_last
    (fun event : Event => event.thread = 0 ∧ event.request = request) same
    ⟨rfl, rfl⟩ ⟨rfl, rfl⟩
    (fun event member marked => silent event member marked.1 marked.2)
    (fun event member marked => quiet event member marked.1 marked.2)
  cases event
  rfl

/-- The last answer to a request, found by going through the past. -/
def lastAnswer (past : List Event) (request : Call) :
    Option (Answer request) :=
  past.foldl
    (fun last event =>
      if same : event.thread = 0 ∧ event.request = request then
        some (same.2 ▸ event.answer)
      else last)
    none

/-- The requests whose answers a pass works with to its end. -/
def Call.IsOpening : Call → Prop
  | .announceSet | .discover _ | .list | .allItems | .fileStamps | .shareEnds
  | .itemOrigins | .nowEpoch => True
  | _ => False

/-- The rows were the last thing the syncer read. -/
def JustRead (past : List Event) (rows : List SharedItem) : Prop :=
  ∃ earlier between, past = earlier ++ ⟨0, .allItems, .ok rows⟩ :: between ∧
    ∀ event ∈ between, event.thread ≠ 0

/-- The syncer once read the rows and, with its next call, the stamps. -/
def ReadTogether (past : List Event) (rows : List SharedItem)
    (stamps : List (ItemKey × FileStamp)) : Prop :=
  ∃ earlier later, past = earlier ++ ⟨0, .fileStamps, .ok stamps⟩ :: later ∧
    JustRead earlier rows

/-- The syncer has written to no item since it read these rows. -/
def Unwritten (past : List Event) (rows : List SharedItem) : Prop :=
  ∃ earlier later, past = earlier ++ ⟨0, .allItems, .ok rows⟩ :: later ∧
    ∀ event ∈ later, event.thread = 0 → ¬ event.request.Writes

theorem Unwritten.append (unwritten : Unwritten past rows)
    (reads : event.thread = 0 → ¬ event.request.Writes) :
    Unwritten (past ++ [event]) rows := by
  obtain ⟨earlier, later, rfl, silent⟩ := unwritten
  refine ⟨earlier, later ++ [event], by simp, ?_⟩
  intro among member
  rcases List.mem_append.mp member with old | new
  · exact silent among old
  · rw [List.mem_singleton.mp new]
    exact reads

theorem Call.IsOpening.not_writes (opening : request.IsOpening) :
    ¬ request.Writes := by
  cases request with
  | upsert | update => exact opening.elim
  | _ => exact id

theorem JustRead.append (just : JustRead past rows) (other : event.thread ≠ 0) :
    JustRead (past ++ [event]) rows := by
  obtain ⟨earlier, between, rfl, silent⟩ := just
  refine ⟨earlier, between ++ [event], by simp, ?_⟩
  intro among member
  rcases List.mem_append.mp member with old | new
  · exact silent among old
  · rw [List.mem_singleton.mp new]
    exact other

theorem ReadTogether.append {stamps : List (ItemKey × FileStamp)}
    (together : ReadTogether past rows stamps) (event : Event) :
    ReadTogether (past ++ [event]) rows stamps := by
  obtain ⟨earlier, later, rfl, just⟩ := together
  exact ⟨earlier, later ++ [event], by simp, just⟩

/-- What the loop of a pass works with is what it last heard. -/
structure Told (pass : PassContext) (readings : Syncer.Readings)
    (items : List Discovered) (past : List Event) : Prop where
  announce : Heard past .announceSet (.ok pass.announce)
  torrents : Heard past .list (.ok pass.torrents)
  origins : Heard past .itemOrigins (.ok pass.origins)
  rows : ∃ rows, Heard past .allItems (.ok rows) ∧
    readings.known = rows.map folded ∧
      (readings.stamps = [] ∨ ReadTogether past rows readings.stamps)
  ends : Heard past .shareEnds (.ok readings.ends)
  now : Heard past .nowEpoch readings.now
  items : ∀ item ∈ items, ∃ kind scan,
    Heard past (.discover kind) (.ok scan) ∧ item ∈ scan.items

/-- A statement about the past that the syncer's other calls leave alone. -/
def Lasting (property : List Event → Prop) : Prop :=
  ∀ past event, property past →
    (event.thread = 0 → ¬ event.request.IsOpening) →
      property (past ++ [event])

theorem Heard.lasting (heard : Heard past request answer)
    (other : event.thread = 0 → ¬ event.request.IsOpening)
    (opening : request.IsOpening) :
    Heard (past ++ [event]) request answer :=
  heard.append fun syncer same => other syncer (same ▸ opening)

theorem lasting_told (pass : PassContext) (readings : Syncer.Readings)
    (items : List Discovered) : Lasting (Told pass readings items) := by
  intro past event told other
  obtain ⟨rows, heard, known, stamps⟩ := told.rows
  refine
    { announce := told.announce.lasting other trivial
      torrents := told.torrents.lasting other trivial
      origins := told.origins.lasting other trivial
      rows := ⟨rows, heard.lasting other trivial, known,
        stamps.imp_right fun together => together.append event⟩
      ends := told.ends.lasting other trivial
      now := told.now.lasting other trivial
      items := ?_ }
  intro item member
  obtain ⟨kind, scan, heard, among⟩ := told.items item member
  exact ⟨kind, scan, heard.lasting other trivial, among⟩

/-- What a pass knows of an item is a row it read. -/
theorem row_of_knownItems {known : SharedItem} {key : ItemKey}
    (found : knownItems (rows.map folded) key = some known) :
    ∃ row ∈ rows, row.key = key ∧ known = folded row := by
  have listed := Rust.mem_of_collected_eq_some found
  obtain ⟨among, member, same⟩ := List.mem_map.mp listed
  obtain ⟨named, rfl⟩ := Prod.mk.inj same
  obtain ⟨row, read, rfl⟩ := List.mem_map.mp member
  exact ⟨row, read, named, rfl⟩

theorem settled_eq_some_iff {pass : PassContext} {row : Option SharedItem}
    {known : SharedItem} {hash : String} {reported : TorrentSummary} :
    pass.settled row = some (known, hash, reported) ↔
      row = some known ∧ known.state = .seeding ∧
        known.infoHash = some hash ∧ pass.live hash = some reported := by
  constructor
  · intro settled
    obtain ⟨other, same, rest⟩ := Option.bind_eq_some_iff.mp settled
    split at rest
    · rename_i seeding
      obtain ⟨found, named, rest⟩ := Option.bind_eq_some_iff.mp rest
      obtain ⟨torrent, live, rest⟩ := Option.bind_eq_some_iff.mp rest
      cases rest
      exact ⟨same, seeding, named, live⟩
    · cases rest
  · rintro ⟨rfl, seeding, named, live⟩
    simp [PassContext.settled, seeding, named, live]

end Sync

/-- The requests of the seeder a rule can be about: what it hands to the
client or leaves in the cache. -/
def Seeder.Call.IsAct : Seeder.Call → Prop
  | .add _ | .writeCached .. | .setTrackers .. => True
  | _ => False

namespace Sync

def Call.IsAct : Call → Prop
  | .seeder _ request => request.IsAct
  | _ => False

/-- The calls that neither read anew what a pass works with nor are what a
rule is about. -/
def Call.IsPlain (request : Call) : Prop :=
  ¬ request.IsOpening ∧ ¬ request.IsAct

/-- The calls of a pass outside `watch`, `confirmLive` and `seedItem`, beside
its opening ones. -/
def Call.IsCommon : Call → Prop
  | .announceSet | .discover _ | .list | .allItems | .fileStamps | .shareEnds
  | .itemOrigins | .nowEpoch | .seeder .. | .update _ (.setSeeding ..)
  | .update _ (.setInfoHashV2 _) | .update _ (.setFileStamp _) => False
  | .upsert item _ => item.infoHash = none
  | _ => True

theorem Call.IsOpening.not_act {request : Call} (opening : request.IsOpening) :
    ¬ request.IsAct := by
  cases request with
  | seeder key request => exact opening.elim
  | _ => exact id

theorem Call.IsCommon.plain {request : Call} (common : request.IsCommon) :
    request.IsPlain := by
  cases request with
  | announceSet | discover | list | allItems | fileStamps | shareEnds
  | itemOrigins | nowEpoch | seeder => exact common.elim
  | _ => exact ⟨id, id⟩

variable {request : Call}

theorem Call.Probes.common (probes : request.Probes) : request.IsCommon := by
  cases request with
  | probe | tryExists | fileStamp => trivial
  | _ => exact probes.elim

theorem Call.Limits.common (limits : request.Limits) : request.IsCommon := by
  cases request with
  | minuteOfDay | trackCap | limitsApplied | rememberLimits | setLimits =>
    trivial
  | _ => exact limits.elim

theorem Call.Withdraws.common (withdraws : request.Withdraws) :
    request.IsCommon := by
  cases request with
  | get | iterate | remove | setItemOrigin => trivial
  | update key change =>
    cases change with
    | setState | resetForRebuild => trivial
    | _ => exact withdraws.elim
  | _ => exact withdraws.elim

theorem Call.Notes.plain (notes : request.Notes) : request.IsPlain := by
  cases request with
  | seeder key request =>
    cases request with
    | add | writeCached | setTrackers => exact notes.elim
    | _ => exact ⟨id, id⟩
  | fileStamp | setItemOrigin | update => exact ⟨id, id⟩
  | _ => exact notes.elim

theorem Call.Identifies.plain (identifies : request.Identifies) :
    request.IsPlain := by
  cases request with
  | setItemOrigin | update => exact ⟨id, id⟩
  | _ => exact identifies.elim

end Sync

namespace Syncer

open Process (Prog)
open Process.Prog (Only)
open Sync

variable (syncer : Syncer)

theorem trackCapInForce_common : syncer.trackCapInForce.Only Call.IsCommon :=
  syncer.trackCapInForce_limits.mono fun _ => Call.Limits.common

theorem ratioLimitOf_common (known : SharedItem) (hash : String)
    (reported : TorrentSummary) :
    (syncer.ratioLimitOf known hash reported).Only Call.IsCommon :=
  (syncer.ratioLimitOf_limits ..).mono fun _ => Call.Limits.common

theorem upstreamOf_plain (pass : PassContext) (key : ItemKey)
    (known : SharedItem) (hash : String) :
    (syncer.upstreamOf pass key known hash).Only Call.IsPlain :=
  (syncer.upstreamOf_notes ..).mono fun _ => Call.Notes.plain

theorem withMedia_common (item : Discovered) :
    (syncer.withMedia item).Only Call.IsCommon :=
  (syncer.withMedia_probes item).mono fun _ => Call.Probes.common

theorem locate_common (item : Discovered) :
    (syncer.locate item).Only Call.IsCommon :=
  (syncer.locate_probes item).mono fun _ => Call.Probes.common

theorem record_common (item : Discovered) :
    (syncer.record item).Only Call.IsCommon :=
  ⟨trivial, fun _ => ⟨rfl, fun _ => trivial⟩⟩

theorem recordIdentity_plain (key : ItemKey) (entry : Recorded) :
    (syncer.recordIdentity key entry).Only Call.IsPlain :=
  (syncer.recordIdentity_identifies key entry).mono
    fun _ => Call.Identifies.plain

theorem recordSeeded_plain (pass : PassContext) (key : ItemKey)
    (stamp : Option FileStamp) (outcome : SeedOutcome) :
    (syncer.recordSeeded pass key stamp outcome).Only Call.IsPlain :=
  ⟨⟨id, id⟩, fun _ => Only.proceed _ fun _ =>
    syncer.recordIdentity_plain key _⟩

theorem watch_plain (pass : PassContext) (item : Discovered)
    (known : Option SharedItem) (stamps : List (ItemKey × FileStamp))
    (report : SyncReport) :
    (syncer.watch pass item known stamps report).Only Call.IsPlain :=
  (syncer.watch_notes ..).mono fun _ => Call.Notes.plain

theorem withdrawUntagged_common (known : List SharedItem)
    (tagged : List ItemKey) (withdrawable : List MediaSource)
    (dryRun : Bool) :
    (withdrawUntagged known tagged withdrawable dryRun).Only
      Call.IsCommon :=
  (withdrawUntagged_withdraws ..).mono fun _ => Call.Withdraws.common

theorem endShare_common (pass : PassContext) (known : Option SharedItem)
    (report : SyncReport) : (endShare pass known report).Only Call.IsCommon :=
  (endShare_withdraws ..).mono fun _ => Call.Withdraws.common

theorem recordFailure_common (pass : PassContext) (key : ItemKey)
    (reason : String) (report : SyncReport) :
    (recordFailure pass key reason report).Only Call.IsCommon :=
  (recordFailure_withdraws ..).mono fun _ => Call.Withdraws.common

theorem recordAudiences_common
    (audiences : List (MediaSource × SourceAudience)) :
    (syncer.recordAudiences audiences).Only Call.IsCommon := by
  induction audiences with
  | nil => trivial
  | cons audience audiences ih =>
    exact ⟨trivial, fun _ => Only.proceed _ fun _ => ih⟩

theorem job_common {job : Job} (single : ∀ dryRun, job ≠ .run dryRun) :
    (syncer.job job).Only Call.IsCommon :=
  (syncer.job_withdraws single).mono fun _ => Call.Withdraws.common

end Syncer

end Sharerr
