import Sharerr.Sync.Alone

/-!
# Whose torrents they are

A row says with `created_by_sharerr` that sharerr added the torrent it is
seeded under, which is what lets a withdrawal remove it.  Here the flag is
compared with what the client was really asked: a row marked so stands under a
torrent sharerr added, in every run; and a torrent sharerr added for an item
is marked so as long as no later share finds it in the client and takes it for
somebody else's.
-/

namespace Sharerr

namespace Sync

open Process (Prog Performed Safe)

/-- The client took the torrent from sharerr, for the item. -/
def Added (past : List Event) (key : ItemKey) (hash : String) : Prop :=
  ∃ thread request, request.infoHash = hash ∧
    (⟨thread, .seeder key (.add request), .ok ()⟩ : Event) ∈ past

/-- The event takes the torrent out of the client. -/
inductive Drops (hash : String) : Event → Prop where
  | removed (thread : Nat) {other : String} (same : SameHash other hash) :
      Drops hash ⟨thread, .remove other, .ok ()⟩
  | edited (thread : Nat) {torrents : List TorrentSummary}
      (gone : ∀ torrent ∈ torrents, ¬ SameHash torrent.hash hash) :
      Drops hash ⟨thread, .edit torrents, ()⟩

/-- A torrent sharerr added for the item that has been in the client ever
since. -/
def Own (past : List Event) (key : ItemKey) (hash : String) : Prop :=
  ∃ earlier thread request later,
    past = earlier ++ ⟨thread, .seeder key (.add request), .ok ()⟩ :: later ∧
      SameHash request.infoHash hash ∧ ∀ event ∈ later, ¬ Drops hash event

/-- Whatever the client was asked to remove, sharerr had added. -/
def RemovesAdded (past : List Event) : Prop :=
  ∀ earlier thread hash answer later,
    past = earlier ++ ⟨thread, .remove hash, answer⟩ :: later →
      ∃ key added, Added earlier key added ∧ SameHash added hash

variable {hash : String} {key : ItemKey} {past : List Event} {request : Call}
  {answer : Answer request} {thread : Nat} {property : Moment → Prop}
  {moment : Moment} {α : Type} {items : List SharedItem} {item : SharedItem}
  {event : Event}

theorem Added.append (added : Added past key hash) (later : List Event) :
    Added (past ++ later) key hash := by
  obtain ⟨thread, request, same, member⟩ := added
  exact ⟨thread, request, same, List.mem_append_left _ member⟩

variable {last : Event} {known : List SharedItem}
  {next : Answer request → Program α} {post : α → Moment → Prop}

/-- A torrent is sharerr's own after an event if it was before, or if the
event added it. -/
theorem Own.of_append (own : Own (past ++ [last]) key hash) :
    Own past key hash ∨ ∃ thread request, SameHash request.infoHash hash ∧
      last = ⟨thread, .seeder key (.add request), .ok ()⟩ := by
  obtain ⟨earlier, thread, request, later, whole, same, kept⟩ := own
  rcases Process.split_last whole with ⟨-, rfl⟩ | ⟨rest, rfl, before⟩
  · exact .inr ⟨thread, request, same, rfl⟩
  · refine .inl ⟨earlier, thread, request, rest, before, same, ?_⟩
    intro event member
    exact kept event (List.mem_append_left _ member)

theorem RemovesAdded.append (removes : RemovesAdded past)
    (next : ∀ thread hash answer, last = ⟨thread, .remove hash, answer⟩ →
      ∃ key added, Added past key added ∧ SameHash added hash) :
    RemovesAdded (past ++ [last]) := by
  intro earlier thread hash answer later whole
  rcases Process.split_last whole with ⟨rfl, same⟩ | ⟨rest, rfl, before⟩
  · exact next thread hash answer same
  · exact removes earlier thread hash answer rest before

/-- A row marked as sharerr's stands under a torrent it added for the item. -/
def CreatedAdded (moment : Moment) : Prop :=
  ∀ key share hash, moment.world.share? key = some share →
    share.created = true → share.infoHash = some hash →
      Added moment.past key hash

/-- An item seeding under sharerr's own torrent is marked so. -/
def OwnCreated (moment : Moment) : Prop :=
  ∀ key share hash, moment.world.share? key = some share →
    share.state = .seeding → share.infoHash = some hash →
      Own moment.past key hash → share.created = true

/-- No share adopts a torrent that sharerr added for the same item and that
has been in the client ever since. -/
def AdoptsOthers : Process.Condition Nat World Call Answer :=
  fun moment event => ∀ thread key hash urls answer,
    event = ⟨thread, .seeder key (.addTrackers hash urls), answer⟩ →
      ¬ Own moment.past key hash

/-- Nothing that `CreatedAdded` and `OwnCreated` speak of is disturbed. -/
structure Undisturbed (before after : Moment) : Prop where
  shares : after.world.share? = before.world.share?
  own : ∀ key hash, Own after.past key hash → Own before.past key hash
  past : ∃ event, after.past = before.past ++ [event]

structure Owned (strict : Prop) (moment : Moment) : Prop where
  created : CreatedAdded moment
  removes : RemovesAdded moment.past
  own : strict → OwnCreated moment

/-- The syncer's torrents, with the condition on its adoptions in force where
`strict` holds. -/
def ownership (strict : Prop) : Process.Protocol Nat World Call Answer where
  perform := perform
  condition moment event := strict → AdoptsOthers moment event
  invariant := Owned strict
  guarantee thread before after := thread ≠ 0 → Undisturbed before after

variable {strict : Prop}

theorem Undisturbed.createdAdded {before after : Moment}
    (undisturbed : Undisturbed before after)
    (created : CreatedAdded before) : CreatedAdded after := by
  intro key share hash found marked under
  obtain ⟨event, past⟩ := undisturbed.past
  rw [undisturbed.shares] at found
  rw [past]
  exact (created key share hash found marked under).append [event]

theorem Undisturbed.ownCreated {before after : Moment}
    (undisturbed : Undisturbed before after) (own : OwnCreated before) :
    OwnCreated after := by
  intro key share hash found seeding under owned
  rw [undisturbed.shares] at found
  exact own key share hash found seeding under (undisturbed.own _ _ owned)

/-- An event that neither adds a torrent nor removes one, and leaves the shares
alone. -/
theorem undisturbed_of {before after : Moment}
    (performed : Performed (ownership strict) thread before request answer
      after) (shares : after.world.share? = before.world.share?)
    (noAdd : ∀ key add, request ≠ .seeder key (.add add)) :
    Undisturbed before after := by
  refine ⟨shares, ?_, ⟨_, performed.past⟩⟩
  intro key hash own
  rw [performed.past] at own
  rcases own.of_append with own | ⟨other, add, -, same⟩
  · exact own
  · exact absurd (congrArg Process.Event.request same) (noAdd key add)

/-- What an event leaves undisturbed stays owned; a removal has to be of a
torrent sharerr added. -/
theorem Owned.of_undisturbed {before after : Moment}
    (performed : Performed (ownership strict) thread before request answer
      after) (undisturbed : Undisturbed before after)
    (removal : ∀ hash, request = .remove hash →
      ∃ key added, Added before.past key added ∧ SameHash added hash) :
    Owned strict after := by
  have owned := performed.holds
  refine ⟨undisturbed.createdAdded owned.created, ?_,
    fun held => undisturbed.ownCreated (owned.own held)⟩
  rw [performed.past]
  apply owned.removes.append
  intro other hash otherAnswer same
  exact removal hash (congrArg Process.Event.request same)

/-- The item's row is not in state Seeding. -/
def Waiting (key : ItemKey) (moment : Moment) : Prop :=
  ∀ share, moment.world.share? key = some share → share.state ≠ .seeding

/-- The rows a pass goes by: those marked as sharerr's are of torrents it
added. -/
def Remembers (items : List SharedItem) (moment : Moment) : Prop :=
  ∀ item ∈ items, item.createdBySharerr = true →
    ∀ hash, item.infoHash = some hash →
      ∃ key added, Added moment.past key added ∧ SameHash added hash

/-- A property that only an event which disturbs the shares can end. -/
def Kept (property : Moment → Prop) : Prop :=
  ∀ before after, Undisturbed before after → property before →
    property after

theorem Kept.stable (kept : Kept property) :
    (ownership strict).Stable 0 property := by
  rintro before after holds ⟨other, different, guarantee, -, -⟩
  exact kept before after (guarantee different) holds

theorem kept_waiting (key : ItemKey) : Kept (Waiting key) := by
  intro before after undisturbed waiting share found
  rw [undisturbed.shares] at found
  exact waiting share found

theorem kept_not_own (key : ItemKey) (hash : String) :
    Kept fun moment => ¬ Own moment.past key hash := by
  intro before after undisturbed notOwn own
  exact notOwn (undisturbed.own key hash own)

theorem kept_added (key : ItemKey) (hash : String) :
    Kept fun moment => Added moment.past key hash := by
  intro before after undisturbed added
  obtain ⟨event, past⟩ := undisturbed.past
  rw [past]
  exact added.append [event]

theorem Kept.and {left right : Moment → Prop} (first : Kept left)
    (second : Kept right) : Kept fun moment => left moment ∧ right moment := by
  intro before after undisturbed holds
  exact ⟨first before after undisturbed holds.1,
    second before after undisturbed holds.2⟩

theorem kept_imp {premise : Prop} (kept : Kept property) :
    Kept fun moment => premise → property moment := by
  intro before after undisturbed holds held
  exact kept before after undisturbed (holds held)

theorem kept_true : Kept fun _ => True :=
  fun _ _ _ _ => trivial

variable {before after : Moment}

theorem undisturbed_quiet
    (performed : Performed (ownership strict) 0 before request answer after)
    (quiet : request.IsQuiet) : Undisturbed before after := by
  apply undisturbed_of performed (perform_quiet 0 quiet performed.performed).1
  rintro key add rfl
  exact quiet

theorem Owned.of_quiet
    (performed : Performed (ownership strict) 0 before request answer after)
    (quiet : request.IsQuiet) : Owned strict after := by
  apply Owned.of_undisturbed performed (undisturbed_quiet performed quiet)
  rintro hash rfl
  exact quiet.elim

theorem safe_quiet {program : Program α} (kept : Kept property)
    (quiet : program.Only Call.IsQuiet) (holds : property moment) :
    Safe (ownership strict) 0 (fun _ after => property after) program
      moment := by
  apply Safe.of_only kept.stable _ quiet holds
  intro before request answer after quiet held performed
  exact ⟨.of_quiet performed quiet, fun different => absurd rfl different,
    kept before after (undisturbed_quiet performed quiet) held⟩

/-- A share that may be recorded for the item. -/
structure Fits (strict : Prop) (past : List Event) (key : ItemKey)
    (share : Share) : Prop where
  created : share.created = true → ∀ hash, share.infoHash = some hash →
    Added past key hash
  own : strict → share.state = .seeding → ∀ hash,
    share.infoHash = some hash → Own past key hash → share.created = true

theorem Owned.fits (owned : Owned strict moment) {share : Share}
    (found : moment.world.share? key = some share) :
    Fits strict moment.past key share where
  created marked hash under := owned.created key share hash found marked under
  own held seeding hash under :=
    owned.own held key share hash found seeding under

/-- A write of one item's share keeps the invariant if the share fits. -/
theorem Owned.of_write
    (performed : Performed (ownership strict) 0 before request answer after)
    (key : ItemKey)
    (others : ∀ other, other ≠ key →
      after.world.share? other = before.world.share? other)
    (fits : ∀ share, after.world.share? key = some share →
      Fits strict before.past key share)
    (noAdd : ∀ key add, request ≠ .seeder key (.add add))
    (noRemove : ∀ hash, request ≠ .remove hash) :
    Owned strict after := by
  have owned := performed.holds
  have fitting : ∀ other share, after.world.share? other = some share →
      Fits strict before.past other share := by
    intro other share found
    by_cases same : other = key
    · subst same
      exact fits share found
    · rw [others other same] at found
      exact owned.fits found
  constructor
  · intro other share hash found marked under
    rw [performed.past]
    exact ((fitting other share found).created marked hash under).append _
  · rw [performed.past]
    apply owned.removes.append
    intro thread hash otherAnswer same
    exact absurd (congrArg Process.Event.request same) (noRemove hash)
  · intro held other share hash found seeding under own
    rw [performed.past] at own
    rcases own.of_append with own | ⟨thread, add, -, same⟩
    · exact (fitting other share found).own held seeding hash under own
    · exact absurd (congrArg Process.Event.request same) (noAdd other add)

theorem Owned.of_update {change : ItemUpdate}
    {answer : Answer (.update key change)}
    (performed : Performed (ownership strict) 0 before (.update key change)
      answer after)
    (fits : ∀ row, before.world.items.row? key = some row →
      Fits strict before.past key (change.apply row).share) :
    Owned strict after := by
  have outcome : after.world = before.world ∨
      after.world = before.world.updateItem key change :=
    writing_eq_some performed.performed
  apply Owned.of_write performed key _ _ (by simp) (by simp)
  · intro other different
    rcases outcome with same | wrote
    · rw [same]
    · rw [wrote, share?_updateItem, if_neg different]
  · intro share found
    rcases outcome with same | wrote
    · rw [same] at found
      exact performed.holds.fits found
    · rw [wrote, share?_updateItem, if_pos rfl] at found
      obtain ⟨row, held, rfl⟩ := Option.map_eq_some_iff.mp found
      exact fits row held

theorem Owned.of_setState {state : ShareState} {lastError : Option String}
    {answer : Answer (.update key (.setState state lastError))}
    (leaves : state ≠ .seeding)
    (performed : Performed (ownership strict) 0 before
      (.update key (.setState state lastError)) answer after) :
    Owned strict after := by
  apply Owned.of_update performed
  intro row found
  have fits : Fits strict before.past key row.share := by
    apply performed.holds.fits
    rw [World.share?, found]
    rfl
  constructor
  · exact fits.created
  · intro _ seeding
    exact absurd seeding leaves

theorem Owned.of_reset {answer : Answer (.update key .resetForRebuild)}
    (performed : Performed (ownership strict) 0 before
      (.update key .resetForRebuild) answer after) :
    Owned strict after := by
  apply Owned.of_update performed
  intro row _
  constructor
  · intro marked
    cases marked
  · intro _ seeding
    cases seeding

/-- Recording an item keeps the invariant, and it waits to be seeded. -/
theorem Owned.of_upsert {item : Discovered} {title : String} {now : Int}
    {answer : Answer (.upsert (item.intoSharedItem title) now)}
    (performed : Performed (ownership strict) 0 before
      (.upsert (item.intoSharedItem title) now) answer after) :
    Owned strict after ∧
      (answer = .ok () → Waiting item.key after) := by
  have written : answer = .ok () → after.world =
      before.world.upsert (item.intoSharedItem title) now := by
    rintro rfl
    exact (Option.some.inj performed.performed).symm
  have outcome : after.world = before.world ∨ after.world =
      before.world.upsert (item.intoSharedItem title) now :=
    writing_eq_some performed.performed
  constructor
  · apply Owned.of_write performed item.key _ _ (by simp) (by simp)
    · intro other different
      rcases outcome with same | wrote
      · rw [same]
      · rw [wrote, share?_upsert, if_neg different]
    · intro share found
      rcases outcome with same | wrote
      · rw [same] at found
        exact performed.holds.fits found
      · rw [wrote, share?_upsert, if_pos rfl] at found
        cases held : before.world.share? item.key with
        | none =>
          rw [held] at found
          cases found
          exact ⟨fun marked => (Bool.false_ne_true marked).elim,
            fun _ seeding => ShareState.noConfusion seeding⟩
        | some old =>
          rw [held] at found
          cases found
          exact ⟨(performed.holds.fits held).created,
            fun _ seeding => ShareState.noConfusion seeding⟩
  · intro ok share found seeding
    rw [written ok, share?_upsert, if_pos rfl] at found
    cases found
    cases held : before.world.share? item.key with
    | none =>
      rw [held] at seeding
      cases seeding
    | some old =>
      rw [held] at seeding
      cases seeding

theorem safe_adopt (seeder : Seeder) (infoHash : String)
    (announce : AnnounceSet) (waiting : Waiting key moment) :
    Safe (ownership strict) 0
      (fun _ after => Waiting key after ∧
        (strict → ¬ Own after.past key infoHash))
      (Syncer.forItem key (seeder.adopt infoHash announce)) moment := by
  apply Safe.call (kept_waiting key).stable waiting
  intro before answer after held performed
  have undisturbed : Undisturbed before after := by
    apply undisturbed_of performed _ (by simp)
    exact congrArg World.share? (Option.some.inj performed.performed).symm
  have notOwn : strict → ¬ Own after.past key infoHash := by
    intro holds own
    exact performed.meets holds _ _ _ _ _ rfl (undisturbed.own _ _ own)
  refine ⟨.of_undisturbed performed undisturbed (by simp),
    fun different => absurd rfl different, ?_⟩
  apply safe_quiet ((kept_waiting key).and (kept_imp (kept_not_own key _)))
  · apply Syncer.forItem_quiet
    apply Prog.Only.proceed
    intro _
    exact (seeder.fileAdopted_idle infoHash announce).mono
      fun _ idle => idle.quiet
  · exact ⟨kept_waiting key before after undisturbed held, notOwn⟩

/-- What seeding an item promises: a torrent sharerr handed over is one it
added, and any other was not its own. -/
def Seeded (strict : Prop) (key : ItemKey)
    (result : Except String SeedOutcome) (moment : Moment) : Prop :=
  Waiting key moment ∧ ∀ outcome, result = .ok outcome →
    ((Syncer.recorded none outcome).created = true →
      Added moment.past key outcome.infoHash) ∧
    ((Syncer.recorded none outcome).created = false → strict →
      ¬ Own moment.past key outcome.infoHash)

theorem Owned.of_add {add : AddRequest}
    {answer : Answer (.seeder key (.add add))} (waiting : Waiting key before)
    (performed : Performed (ownership strict) 0 before
      (.seeder key (.add add)) answer after) :
    Owned strict after ∧ Waiting key after ∧
      (answer = .ok () → Added after.past key add.infoHash) := by
  have owned := performed.holds
  have shares : after.world.share? = before.world.share? := by
    have outcome : after.world = before.world ∨
        after.world = before.world.add add :=
      writing_eq_some performed.performed
    rcases outcome with same | took
    · rw [same]
    · rw [took, World.add]
      split <;> rfl
  refine ⟨⟨?_, ?_, ?_⟩, ?_, ?_⟩
  · intro other share hash found marked under
    rw [shares] at found
    rw [performed.past]
    exact (owned.created other share hash found marked under).append _
  · rw [performed.past]
    apply owned.removes.append
    intro thread hash otherAnswer same
    cases congrArg Process.Event.request same
  · intro held other share hash found seeding under own
    rw [shares] at found
    rw [performed.past] at own
    rcases own.of_append with own | ⟨thread, request, -, same⟩
    · exact owned.own held other share hash found seeding under own
    · -- the torrent just added is the waiting item's
      cases congrArg Process.Event.request same
      exact absurd seeding (waiting share found)
  · intro share found
    rw [shares] at found
    exact waiting share found
  · rintro rfl
    rw [performed.past]
    exact ⟨0, add, rfl, List.mem_append_right _ List.mem_cons_self⟩

theorem safe_handOver (seeder : Seeder) (paths : ResolvedPaths)
    (acquired : Seeder.Acquired) (waiting : Waiting key moment) :
    Safe (ownership strict) 0 (Seeded strict key)
      (Syncer.forItem key (seeder.handOver paths acquired)) moment := by
  rw [Syncer.forItem, Seeder.handOver, Prog.lift_proceed]
  apply Safe.proceed
  · intro reason _
    exact ⟨waiting, fun _ impossible => by cases impossible⟩
  · intro savePath _
    apply Safe.call (kept_waiting key).stable waiting
    intro before answer after held performed
    obtain ⟨owned, waits, added⟩ := Owned.of_add held performed
    refine ⟨owned, fun different => absurd rfl different, ?_⟩
    rw [Prog.lift_proceed]
    apply Safe.proceed
    · intro reason _
      exact ⟨waits, fun _ impossible => by cases impossible⟩
    · intro _ took
      have ok : answer = .ok () := by
        cases answer with
        | error reason => cases took
        | ok _ => rfl
      refine ⟨waits, fun outcome same => ?_⟩
      cases same
      cases acquired.joined with
      | none => exact ⟨fun _ => added ok, fun marked => by cases marked⟩
      | some origin =>
        exact ⟨fun _ => added ok, fun marked => by cases marked⟩

theorem safe_adopting (seeder : Seeder) (infoHash : String)
    (announce : AnnounceSet) (outcome : List String → SeedOutcome)
    (under : ∀ upstream, (outcome upstream).infoHash = infoHash)
    (notCreated : ∀ upstream,
      (Syncer.recorded none (outcome upstream)).created = false)
    (waiting : Waiting key moment) :
    Safe (ownership strict) 0 (Seeded strict key)
      (Syncer.forItem key ((seeder.adopt infoHash announce).attempt
        fun upstream => .done (.ok (outcome upstream)))) moment := by
  rw [Syncer.forItem, Prog.lift_attempt]
  apply Safe.bind (safe_adopt seeder infoHash announce waiting)
  rintro result after ⟨waits, notOwn⟩
  apply Safe.proceed
  · intro reason _
    exact ⟨waits, fun _ impossible => by cases impossible⟩
  · intro upstream _
    refine ⟨waits, fun other same => ?_⟩
    cases same
    rw [notCreated, under]
    exact ⟨fun marked => (Bool.false_ne_true marked).elim, fun _ => notOwn⟩

theorem safe_seed (seeder : Seeder) (paths : ResolvedPaths)
    (announce : AnnounceSet) (torrents : List TorrentSummary)
    (known : Option String) (media : Option MediaMeta)
    (friends : FriendTorrents) (waiting : Waiting key moment) :
    Safe (ownership strict) 0 (Seeded strict key)
      (Syncer.forItem key (seeder.seed paths announce torrents known media
        friends)) moment := by
  rw [Syncer.forItem, Seeder.seed, Prog.lift_bind]
  apply Safe.bind (safe_quiet (kept_waiting key)
    (Syncer.forItem_quiet key ((Seeder.findExisting_idle _ _).mono
      fun _ idle => idle.quiet)) waiting)
  intro existing middle waits
  cases existing with
  | some existing =>
    exact safe_adopting seeder existing announce (.reused existing)
      (fun _ => rfl) (fun _ => rfl) waits
  | none =>
    dsimp only
    split
    · rename_i peerId entry _
      exact safe_adopting seeder entry.infoHash announce
        (fun upstream => .joined entry.infoHash ⟨some peerId, upstream⟩ none)
        (fun _ => rfl) (fun _ => rfl) waits
    · rw [Prog.lift_attempt]
      apply Safe.bind (safe_quiet (kept_waiting key)
        (Syncer.forItem_quiet key (seeder.acquire_quiet ..)) waits)
      intro acquired after stillWaits
      apply Safe.proceed
      · intro reason _
        exact ⟨stillWaits, fun _ impossible => by cases impossible⟩
      · intro acquired _
        exact safe_handOver seeder paths acquired stillWaits

theorem kept_removable (hash : String) :
    Kept fun moment =>
      ∃ key added, Added moment.past key added ∧ SameHash added hash := by
  rintro before after undisturbed ⟨key, added, held, same⟩
  exact ⟨key, added, kept_added key added before after undisturbed held, same⟩

/-- The past only grows, so what it says about rows read once stays true. -/
theorem remembers_performed
    (performed : Performed (ownership strict) thread before request answer
      after) (remembers : Remembers items before) : Remembers items after := by
  intro item member marked hash under
  obtain ⟨key, added, held, same⟩ := remembers item member marked hash under
  rw [performed.past]
  exact ⟨key, added, held.append _, same⟩

theorem kept_remembers (items : List SharedItem) : Kept (Remembers items) := by
  intro before after undisturbed remembers item member marked hash under
  exact kept_removable hash before after undisturbed
    (remembers item member marked hash under)

theorem Remembers.mono {items fewer : List SharedItem} {moment : Moment}
    (remembers : Remembers items moment)
    (subset : ∀ item ∈ fewer, item ∈ items) : Remembers fewer moment :=
  fun item member => remembers item (subset item member)

theorem safe_removeOwn (remembers : Remembers [item] moment) :
    Safe (ownership strict) 0 (fun _ _ => True) (Syncer.removeOwn item)
      moment := by
  unfold Syncer.removeOwn
  split
  · rename_i hash under marked
    have removable :=
      remembers item List.mem_cons_self marked hash under
    apply Safe.call (kept_removable hash).stable removable
    intro before answer after held performed
    have undisturbed : Undisturbed before after := by
      apply undisturbed_of performed _ (by simp)
      have outcome : after.world = before.world ∨
          after.world = before.world.remove hash :=
        writing_eq_some performed.performed
      rcases outcome with same | removed
      · rw [same]
      · rw [removed]
        rfl
    refine ⟨.of_undisturbed performed undisturbed ?_,
      fun different => absurd rfl different, trivial⟩
    intro other same
    cases same
    exact held
  · trivial

theorem safe_unshareOne (remembers : Remembers [item] moment) :
    Safe (ownership strict) 0 (fun _ _ => True) (Syncer.unshareOne item)
      moment := by
  apply Safe.bind (safe_removeOwn remembers)
  intro _ middle _
  apply Safe.call kept_true.stable trivial
  intro before answer after _ performed
  exact ⟨.of_setState (by simp) performed,
    fun different => absurd rfl different, trivial⟩

theorem safe_prepareRebuild (remembers : Remembers [item] moment) :
    Safe (ownership strict) 0 (fun _ _ => True) (Syncer.prepareRebuild item)
      moment := by
  apply Safe.bind (safe_removeOwn remembers)
  intro _ middle _
  apply Safe.call kept_true.stable trivial
  intro before answer after _ performed
  refine ⟨.of_reset performed, fun different => absurd rfl different, ?_⟩
  apply safe_quiet kept_true _ trivial
  exact Prog.Only.proceed _ fun _ => ⟨trivial, fun _ => trivial⟩

variable (syncer : Syncer)

theorem recorded_created (stamp : Option FileStamp) (outcome : SeedOutcome) :
    (Syncer.recorded stamp outcome).created =
      (Syncer.recorded none outcome).created := by
  cases outcome with
  | reused | added => rfl
  | joined infoHash origin added => cases added <;> rfl

theorem safe_recordSeeded (pass : PassContext) (stamp : Option FileStamp)
    {outcome : SeedOutcome} (seeded : Seeded strict key (.ok outcome) moment) :
    Safe (ownership strict) 0 (fun _ _ => True)
      (syncer.recordSeeded pass key stamp outcome) moment := by
  obtain ⟨-, seeded⟩ := seeded
  obtain ⟨created, others⟩ := seeded outcome rfl
  have kept : Kept fun moment =>
      ((Syncer.recorded none outcome).created = true →
        Added moment.past key outcome.infoHash) ∧
      ((Syncer.recorded none outcome).created = false → strict →
        ¬ Own moment.past key outcome.infoHash) :=
    (kept_imp (kept_added _ _)).and
      (kept_imp (kept_imp (kept_not_own _ _)))
  apply Safe.call kept.stable ⟨created, others⟩
  intro before answer after held performed
  refine ⟨?_, fun different => absurd rfl different, ?_⟩
  · apply Owned.of_update performed
    intro row _
    constructor
    · intro marked hash under
      cases under
      exact held.1 ((recorded_created stamp outcome).symm.trans marked)
    · intro holds _ hash under own
      cases under
      cases marked : (Syncer.recorded none outcome).created with
      | true => exact (recorded_created stamp outcome).trans marked
      | false => exact absurd own (held.2 marked holds)
  · apply safe_quiet kept_true _ trivial
    exact Prog.Only.proceed _ fun _ => syncer.recordIdentity_quiet ..

theorem safe_record (item : Discovered) :
    Safe (ownership strict) 0
      (fun recorded after => recorded = .ok () → Waiting item.key after)
      (syncer.record item) moment := by
  apply Safe.call kept_true.stable trivial
  intro before now middle _ performed
  refine ⟨.of_quiet performed trivial, fun different => absurd rfl different,
    ?_⟩
  apply Safe.call kept_true.stable trivial
  intro before answer after _ performed
  obtain ⟨owned, waits⟩ := Owned.of_upsert performed
  refine ⟨owned, fun different => absurd rfl different, ?_⟩
  intro ok
  apply waits
  cases answer with
  | error reason => cases ok
  | ok _ => rfl

theorem safe_seedItem (pass : PassContext) (item : Discovered)
    (known : Option SharedItem) (paths : ResolvedPaths)
    (waiting : Waiting item.key moment) :
    Safe (ownership strict) 0 (fun _ _ => True)
      (syncer.seedItem pass item known paths) moment := by
  apply Safe.call (kept_waiting item.key).stable waiting
  intro before stamp middle held performed
  refine ⟨.of_quiet performed trivial, fun different => absurd rfl different,
    ?_⟩
  have waits := kept_waiting item.key _ _
    (undisturbed_quiet performed trivial) held
  apply Safe.call (kept_waiting item.key).stable waits
  intro before entries after held performed
  refine ⟨.of_quiet performed trivial, fun different => absurd rfl different,
    ?_⟩
  have stillWaits := kept_waiting item.key _ _
    (undisturbed_quiet performed trivial) held
  apply Safe.bind (safe_seed syncer.seeder _ _ _ _ _ _ stillWaits)
  intro result final seeded
  apply Safe.proceed (fun _ _ => trivial)
  rintro outcome rfl
  exact safe_recordSeeded syncer pass stamp seeded

theorem safe_shareAnew (pass : PassContext) (item : Discovered)
    (known : Option SharedItem) :
    Safe (ownership strict) 0 (fun _ _ => True)
      (syncer.shareAnew pass item known) moment := by
  apply Safe.bind (safe_quiet kept_true (syncer.withMedia_quiet item) trivial)
  intro item middle _
  split
  · apply safe_quiet kept_true _ trivial
    exact (syncer.locate_quiet item).attempt fun _ => trivial
  · apply Safe.bind (safe_record syncer item)
    intro recorded middle waiting
    apply Safe.proceed (fun _ _ => trivial)
    intro _ ok
    apply Safe.bind (safe_quiet (kept_waiting item.key)
      (syncer.locate_quiet item) (waiting ok))
    intro located middle waits
    apply Safe.proceed (fun _ _ => trivial)
    intro paths _
    exact safe_seedItem syncer pass item known paths waits

theorem safe_share (pass : PassContext) (item : Discovered)
    (known : Option SharedItem) :
    Safe (ownership strict) 0 (fun _ _ => True)
      (syncer.share pass item known) moment := by
  unfold Syncer.share
  split
  · split
    · trivial
    · apply safe_quiet kept_true _ trivial
      exact (syncer.confirmLive_quiet ..).bind fun _ => trivial
  · exact safe_shareAnew syncer pass item known

theorem safe_endShare (pass : PassContext) {known : Option SharedItem}
    (report : SyncReport) (remembers : Remembers known.toList moment) :
    Safe (ownership strict) 0 (fun _ _ => True)
      (Syncer.endShare pass known report) moment := by
  cases known with
  | none => trivial
  | some item =>
    unfold Syncer.endShare
    dsimp only
    split
    · trivial
    · split
      · trivial
      · apply Safe.bind (safe_unshareOne remembers)
        intro result _ _
        cases result <;> trivial

theorem knownItems_mem (found : knownItems items key = some item) :
    item ∈ items := by
  obtain ⟨other, member, same⟩ :=
    List.mem_map.mp (Rust.mem_of_collected_eq_some found)
  cases same
  exact member

theorem safe_visit (pass : PassContext) (readings : Syncer.Readings)
    (report : SyncReport) (item : Discovered)
    (remembers : Remembers readings.known moment) :
    Safe (ownership strict) 0 (fun _ _ => True)
      (syncer.visit pass readings report item) moment := by
  unfold Syncer.visit
  dsimp only
  split
  · apply safe_endShare
    apply remembers.mono
    intro other member
    exact knownItems_mem (Option.mem_toList.mp member)
  · apply Safe.bind (safe_quiet kept_true (syncer.watch_quiet ..) trivial)
    intro report _ _
    apply Safe.bind (safe_share syncer pass item _)
    intro result middle _
    cases result with
    | ok step => trivial
    | error reason =>
      dsimp only
      unfold Syncer.recordFailure
      dsimp only
      split
      · trivial
      · apply Safe.call kept_true.stable trivial
        intro before answer after _ performed
        exact ⟨.of_setState (by simp) performed,
          fun different => absurd rfl different, trivial⟩

theorem safe_fold {σ : Type} {step : σ → α → Program σ} {items : List α}
    (body : ∀ state, ∀ item ∈ items, ∀ moment, Remembers known moment →
      Safe (ownership strict) 0 (fun _ _ => True) (step state item) moment)
    (state : σ) (remembers : Remembers known moment) :
    Safe (ownership strict) 0 (fun _ after => Remembers known after)
      (Prog.fold step state items) moment := by
  induction items generalizing state moment with
  | nil => exact remembers
  | cons item items ih =>
    have turn := Safe.frame (fun _ _ _ _ _ => remembers_performed)
      (body state item List.mem_cons_self moment remembers) remembers
    apply Safe.bind turn
    rintro next after ⟨-, held⟩
    exact ih (fun state other member =>
      body state other (List.mem_cons_of_mem _ member)) next held

theorem safe_withdrawUntagged (tagged : List ItemKey)
    (withdrawable : List MediaSource) (dryRun : Bool)
    (remembers : Remembers known moment) :
    Safe (ownership strict) 0 (fun _ _ => True)
      (Syncer.withdrawUntagged known tagged withdrawable dryRun) moment := by
  apply Safe.call (kept_remembers known).stable remembers
  intro before order after held performed
  have rows : Remembers known after := remembers_performed performed held
  have among : ∀ item ∈ order, item ∈ known := by
    intro item member
    have ordered : order.isPerm known = true := by
      by_contra different
      have performs : (if order.isPerm known then some before.world
          else none) = some after.world := performed.performed
      rw [if_neg different] at performs
      cases performs
    exact (List.isPerm_iff.mp ordered).mem_iff.mp member
  refine ⟨.of_quiet performed trivial, fun different => absurd rfl different,
    ?_⟩
  apply (safe_fold _ 0 rows).mono fun _ _ _ => trivial
  intro count item member moment remembers
  split
  · trivial
  · apply Safe.bind (safe_unshareOne (remembers.mono _))
    · intro result _ _
      cases result <;> trivial
    · intro other same
      rw [List.mem_singleton.mp same]
      exact among item (List.mem_of_mem_filter member)

theorem safe_settle (pass : PassContext) (readings : Syncer.Readings)
    (discovery : Discovery) (report : SyncReport)
    (remembers : Remembers readings.known moment) :
    Safe (ownership strict) 0 (fun _ _ => True)
      (syncer.settle pass readings discovery report) moment := by
  apply Safe.bind (safe_fold (fun report item _ moment remembers =>
    safe_visit syncer pass readings report item remembers) report remembers)
  intro report middle rows
  apply Safe.bind (safe_withdrawUntagged _ _ _ rows)
  intro unshared _ _
  trivial

/-- A call that disturbs nothing, followed by the rest of a program. -/
theorem safe_call (kept : Kept property) (holds : property moment)
    (undisturbed : ∀ before answer after,
      Performed (ownership strict) 0 before request answer after →
        Undisturbed before after) (noRemove : ∀ hash, request ≠ .remove hash)
    (rest : ∀ answer after, property after →
      Safe (ownership strict) 0 post (next answer) after) :
    Safe (ownership strict) 0 post (.call request next) moment := by
  apply Safe.call kept.stable holds
  intro before answer after held performed
  have calm := undisturbed before answer after performed
  refine ⟨.of_undisturbed performed calm ?_,
    fun different => absurd rfl different,
    rest answer after (kept before after calm held)⟩
  intro hash same
  exact absurd same (noRemove hash)

theorem safe_call_quiet (kept : Kept property) (holds : property moment)
    (quiet : request.IsQuiet)
    (rest : ∀ answer after, property after →
      Safe (ownership strict) 0 post (next answer) after) :
    Safe (ownership strict) 0 post (.call request next) moment := by
  refine safe_call kept holds ?_ ?_ rest
  · intro before answer after performed
    exact undisturbed_quiet performed quiet
  · rintro hash rfl
    exact quiet

theorem safe_discover (sources : List MediaSource) :
    Safe (ownership strict) 0 (fun _ _ => True) (discover sources)
      moment := by
  apply Safe.fold (fun _ _ _ => True) _ _ _ _ trivial
  intro kind kinds discovery moment _
  refine safe_call kept_true trivial ?_ (by simp) fun _ _ _ => trivial
  intro before answer after performed
  apply undisturbed_of performed _ (by simp)
  cases answer with
  | error reason =>
    exact congrArg World.share? (Option.some.inj performed.performed).symm
  | ok scan =>
    have performs : (if scan.Valid kind then some before.world else none) =
        some after.world := performed.performed
    split at performs
    · rw [Option.some.inj performs]
    · cases performs

theorem safe_recordAudiences (audiences : List (MediaSource × SourceAudience)) :
    Safe (ownership strict) 0 (fun _ _ => True)
      (syncer.recordAudiences audiences) moment := by
  induction audiences generalizing moment with
  | nil => trivial
  | cons entry audiences ih =>
    apply safe_call kept_true trivial _ (by simp)
    · intro replaced after _
      apply Safe.proceed (fun _ _ => trivial)
      intro _ _
      exact ih
    · intro before answer after performed
      apply undisturbed_of performed _ (by simp)
      have outcome : after.world = before.world ∨ after.world =
          before.world.replaceAudience entry.1 entry.2 :=
        writing_eq_some performed.performed
      rcases outcome with same | replaced
      · rw [same]
      · rw [replaced]
        rfl

/-- What a pass reads of the rows at a moment when they are owned. -/
theorem remembers_allItems (owned : Owned strict moment) :
    Remembers (moment.world.items.allItems.map folded) moment := by
  intro item member marked hash under
  obtain ⟨stored, listed, rfl⟩ := List.mem_map.mp member
  obtain ⟨row, found, rfl⟩ := ItemTable.row?_of_mem_allItems listed
  obtain ⟨original, held, rfl⟩ := Option.map_eq_some_iff.mp under
  refine ⟨row.key, original, ?_, (Rust.toAsciiLowercase_idem original).symm⟩
  apply owned.created row.key row.share original _ marked held
  rw [World.share?]
  exact congrArg (Option.map ItemRow.share) found

/-- `Remembers` for a reading of the rows, if it succeeded. -/
def ReadRemembers (read : Except StoreError (List SharedItem))
    (moment : Moment) : Prop :=
  ∀ items, read = .ok items → Remembers (items.map folded) moment

theorem kept_readRemembers (read : Except StoreError (List SharedItem)) :
    Kept (ReadRemembers read) := by
  intro before after undisturbed holds items same
  exact kept_remembers _ before after undisturbed (holds items same)

theorem readRemembers_performed {read : Except StoreError (List SharedItem)}
    (performed : Performed (ownership strict) thread before request answer
      after) (remembers : ReadRemembers read before) :
    ReadRemembers read after :=
  fun items same => remembers_performed performed (remembers items same)

theorem safe_readAll :
    Safe (ownership strict) 0
      (fun reads after => ReadRemembers reads.items after)
      Syncer.readAll moment := by
  apply Safe.call kept_true.stable trivial
  intro before torrents middle _ performed
  refine ⟨.of_quiet performed trivial, fun different => absurd rfl different,
    ?_⟩
  apply Safe.call kept_true.stable trivial
  intro before items after _ performed
  refine ⟨.of_quiet performed trivial, fun different => absurd rfl different,
    ?_⟩
  have rows : ReadRemembers items after := by
    rintro listed rfl
    have read : reading before.world before.world.items.allItems
        (.ok listed : Except StoreError _) = some after.world :=
      performed.performed
    rw [value_of_reading read]
    exact remembers_performed performed (remembers_allItems performed.holds)
  have kept := kept_readRemembers items
  refine safe_call_quiet kept rows trivial fun _ _ rows => ?_
  refine safe_call_quiet kept rows trivial fun _ _ rows => ?_
  exact safe_call_quiet kept rows trivial fun _ _ rows => rows

theorem safe_applyDiscovery (announce : AnnounceSet) (dryRun : Bool)
    (discovery : Discovery) (reads : Syncer.Reads)
    (remembers : ReadRemembers reads.items moment) :
    Safe (ownership strict) 0 (fun _ _ => True)
      (syncer.applyDiscovery announce dryRun discovery reads) moment := by
  unfold Syncer.applyDiscovery
  split
  · trivial
  · apply Safe.proceed (fun _ _ => trivial)
    intro ends _
    apply Safe.proceed (fun _ _ => trivial)
    intro origins _
    refine safe_call_quiet (kept_readRemembers reads.items) remembers trivial
      fun now after rows => ?_
    have audiences : Safe (ownership strict) 0 (fun _ _ => True)
        (if dryRun then .done (.ok ())
          else syncer.recordAudiences discovery.audiences) after := by
      split
      · trivial
      · exact safe_recordAudiences syncer discovery.audiences
    apply Safe.bind (Safe.frame (fun _ _ _ _ _ => readRemembers_performed)
      audiences rows)
    rintro recorded final ⟨-, rows⟩
    apply Safe.proceed (fun _ _ => trivial)
    intro _ _
    apply Safe.proceed (fun _ _ => trivial)
    intro torrents _
    apply Safe.proceed (fun _ _ => trivial)
    intro items read
    apply safe_settle
    apply rows
    cases listed : reads.items with
    | error reason =>
      rw [listed] at read
      cases read
    | ok others =>
      rw [listed] at read
      cases read
      rfl

theorem safe_reconcile (dryRun : Bool) :
    Safe (ownership strict) 0 (fun _ _ => True) (syncer.reconcile dryRun)
      moment := by
  have tracking : Prog.Only Call.IsQuiet
      (if dryRun then .done (.ok ()) else syncer.trackCapInForce) := by
    split
    · trivial
    · exact syncer.trackCapInForce_quiet
  apply Safe.bind (safe_quiet kept_true tracking trivial)
  intro tracked _ _
  apply Safe.proceed (fun _ _ => trivial)
  intro _ _
  refine safe_call_quiet kept_true trivial trivial fun ready _ _ => ?_
  apply Safe.proceed (fun _ _ => trivial)
  intro _ _
  refine safe_call_quiet kept_true trivial trivial fun announce _ _ => ?_
  apply Safe.proceed (fun _ _ => trivial)
  intro announce _
  apply Safe.bind (safe_discover syncer.sources)
  intro discovery _ _
  apply Safe.bind safe_readAll
  intro reads _ rows
  exact safe_applyDiscovery syncer announce dryRun discovery reads rows

theorem safe_run (dryRun : Bool) :
    Safe (ownership strict) 0 (fun _ _ => True) (syncer.run dryRun)
      moment := by
  unfold Syncer.run
  split
  · exact safe_reconcile syncer true
  · refine safe_call_quiet kept_true trivial trivial fun begun _ _ => ?_
    apply Safe.proceed (fun _ _ => trivial)
    intro runId _
    apply Safe.bind (safe_reconcile syncer false)
    intro outcome _ _
    exact safe_call_quiet kept_true trivial trivial fun _ _ _ => trivial

/-- A row loaded for an operator is remembered as the rows of a pass are. -/
theorem remembers_get {key : ItemKey} {item : SharedItem}
    {answer : Answer (.get key)} (answered : answer = .ok (some item))
    (performed : Performed (ownership strict) 0 before (.get key) answer
      after) : Remembers [item] after := by
  subst answered
  have read : reading before.world (before.world.items.item? key)
      (.ok (some item) : Except StoreError _) = some after.world :=
    performed.performed
  have found := value_of_reading read
  obtain ⟨row, held, rfl⟩ := Option.map_eq_some_iff.mp found.symm
  apply remembers_performed performed
  intro other member marked hash under
  cases List.mem_singleton.mp member
  refine ⟨key, hash, ?_, rfl⟩
  apply performed.holds.created key row.share hash _ marked under
  rw [World.share?]
  exact congrArg (Option.map ItemRow.share) held

theorem safe_job (job : Job) :
    Safe (ownership strict) 0 (fun _ _ => True) (syncer.job job) moment := by
  cases job with
  | run dryRun =>
    exact (safe_run syncer dryRun).bind fun _ _ _ => trivial
  | unshare key =>
    apply Safe.call kept_true.stable trivial
    intro before answer after _ performed
    refine ⟨.of_quiet performed trivial,
      fun different => absurd rfl different, ?_⟩
    split
    · rename_i item
      split
      · trivial
      · exact (safe_unshareOne (remembers_get rfl performed)).bind
          fun _ _ _ => trivial
    · trivial
  | rebuild key =>
    apply Safe.call kept_true.stable trivial
    intro before answer after _ performed
    refine ⟨.of_quiet performed trivial,
      fun different => absurd rfl different, ?_⟩
    split
    · exact (safe_prepareRebuild (remembers_get rfl performed)).bind
        fun _ _ _ => trivial
    · trivial

theorem safe_jobs (work : List (Job × Nat)) (owned : Owned strict moment) :
    Safe (ownership strict) 0 (fun _ _ => True) (syncer.jobs work)
      moment := by
  apply Safe.mono _ fun _ _ _ => trivial
  · exact fun _ after => Owned strict after
  · apply Safe.fold (fun _ _ after => Owned strict after) _ _ _ _ owned
    intro entry entries _ moment owned
    exact (Safe.cut owned (safe_job syncer entry.1) entry.2).bind
      fun _ _ owned => owned

theorem undisturbed_visit (visit : request.IsVisit)
    (performed : Performed (ownership strict) thread before request answer
      after) : Undisturbed before after := by
  cases request with
  | seedingItems scope =>
    apply undisturbed_of performed _ (by simp)
    exact congrArg World.share? (reading_eq_some performed.performed)
  | audiences =>
    apply undisturbed_of performed _ (by simp)
    exact congrArg World.share? (reading_eq_some performed.performed)
  | edit torrents =>
    apply undisturbed_of performed _ (by simp)
    rw [← Option.some.inj performed.performed]
    rfl
  | _ => exact visit.elim

theorem safe_visitor (visitor : Visitor) (thread : Nat) :
    Safe (ownership strict) thread (fun _ _ => True) visitor.program
      moment := by
  apply Safe.of_only (fun _ _ _ _ => trivial) _ visitor.visits trivial
  intro before request answer after visit _ performed
  have undisturbed := undisturbed_visit visit performed
  refine ⟨.of_undisturbed performed undisturbed ?_, fun _ => undisturbed,
    trivial⟩
  rintro hash rfl
  exact visit.elim

theorem Owned.fresh (client : List TorrentSummary) :
    Owned strict ⟨World.fresh client, []⟩ := by
  constructor
  · intro key share hash found
    cases found
  · intro earlier thread hash answer later whole
    simp at whole
  · intro _ key share hash found
    cases found

/-- Every run from an empty store keeps the torrents owned. -/
theorem Owned.of_run {work : List (Job × Nat)} {visitors : Nat → Visitor}
    {client : List TorrentSummary} {trace : List Event} {pool : Pool}
    (run : Process.Run perform (ownership strict).condition
      (start syncer work visitors (.fresh client)) trace pool) :
    Owned strict ⟨pool.world, trace⟩ := by
  have sound : Process.Sound (ownership strict) (fun _ _ _ => True) []
      (start syncer work visitors (.fresh client)) := by
    refine ⟨.fresh client, fun thread => ?_⟩
    unfold start
    dsimp only
    split
    · rename_i first
      subst first
      exact (safe_jobs syncer work (.fresh client)).bind fun _ _ _ => trivial
    · exact safe_visitor _ thread
  exact (Process.Run.sound (fun _ _ _ _ _ _ => trivial) run sound).holds

/-- In every run from an empty store, a row marked as sharerr's stands under a
torrent it added, and it asks the client to remove no other; and in every run
in which no share adopts a torrent sharerr added for the same item, an item
seeding under such a torrent is marked so. -/
theorem created_added_and_own_created (syncer : Syncer)
    (work : List (Job × Nat)) (visitors : Nat → Visitor)
    (client : List TorrentSummary) :
    (∀ trace pool, Process.Run perform .always
        (start syncer work visitors (.fresh client)) trace pool →
      CreatedAdded ⟨pool.world, trace⟩ ∧ RemovesAdded trace) ∧
    ∀ trace pool, Process.Run perform AdoptsOthers
        (start syncer work visitors (.fresh client)) trace pool →
      OwnCreated ⟨pool.world, trace⟩ := by
  constructor
  · intro trace pool run
    have owned : Owned False ⟨pool.world, trace⟩ :=
      .of_run syncer (run.weaken fun _ _ _ impossible => impossible.elim)
    exact ⟨owned.created, owned.removes⟩
  · intro trace pool run
    have owned : Owned True ⟨pool.world, trace⟩ :=
      .of_run syncer (run.weaken fun _ _ meets _ => meets)
    exact owned.own trivial

/-- Whether the event is sharerr's adding the torrent for the item. -/
def adds (key : ItemKey) (hash : String) : Event → Bool
  | ⟨_, .seeder other (.add request), .ok _⟩ =>
    other = key && SameHash request.infoHash hash
  | _ => false

def drops (hash : String) : Event → Bool
  | ⟨_, .remove other, .ok _⟩ => SameHash other hash
  | ⟨_, .edit torrents, _⟩ =>
    torrents.all fun torrent => ¬ SameHash torrent.hash hash
  | _ => false

/-- Whether the torrent is sharerr's own after an event, from whether it was
before. -/
def ownNext (key : ItemKey) (hash : String) (own : Bool) (event : Event) :
    Bool :=
  adds key hash event || own && !drops hash event

theorem eq_of_adds (added : adds key hash event = true) :
    ∃ thread request, SameHash request.infoHash hash ∧
      event = ⟨thread, .seeder key (.add request), .ok ()⟩ := by
  unfold adds at added
  split at added
  · rename_i thread other request _
    simp only [Bool.and_eq_true, decide_eq_true_eq] at added
    obtain ⟨rfl, same⟩ := added
    exact ⟨thread, request, same, rfl⟩
  · cases added

theorem drops_of_drops (dropped : Drops hash event) :
    drops hash event = true := by
  cases dropped with
  | removed thread same => exact decide_eq_true same
  | edited thread gone =>
    apply List.all_eq_true.mpr
    intro torrent member
    exact decide_eq_true (gone torrent member)

theorem own_of_scan (scanned : past.foldl (ownNext key hash) false = true) :
    Own past key hash := by
  induction past using List.reverseRecOn with
  | nil => cases scanned
  | append_singleton past last ih =>
    rw [List.foldl_append] at scanned
    rcases Bool.or_eq_true_iff.mp scanned with added | kept
    · obtain ⟨thread, request, same, rfl⟩ := eq_of_adds added
      exact ⟨past, thread, request, [], rfl, same,
        fun _ member => absurd member List.not_mem_nil⟩
    · obtain ⟨before, stays⟩ := Bool.and_eq_true_iff.mp kept
      obtain ⟨earlier, thread, request, later, rfl, same, held⟩ := ih before
      refine ⟨earlier, thread, request, later ++ [last], ?_, same, ?_⟩
      · rw [List.append_assoc, List.cons_append]
      · intro event member
        rcases List.mem_append.mp member with old | new
        · exact held event old
        · rw [List.mem_singleton.mp new]
          intro dropped
          rw [drops_of_drops dropped] at stays
          cases stays

/-- The film is always tagged; the client refuses to remove anything. -/
def stubbornClient : Environment :=
  .small
    (fun
      | .remove _ => some "connection refused"
      | _ => none)
    ⟨[film 1], true, []⟩ valid_film

/-- Whether the call adopts a torrent. -/
def Call.adopts : Call → Bool
  | .seeder _ (.addTrackers _ _) => true
  | _ => false

/-- A run that adopts nothing meets the condition. -/
theorem adoptsOthers_of_no_adoption {world : World}
    (none : event.request.adopts = false) :
    AdoptsOthers ⟨world, past⟩ event := by
  rintro thread key hash urls answer rfl
  cases none

/-- The first pass over the film, which it leaves marked as sharerr's. -/
theorem shared_film_marked :
    ∃ trace pool, Process.Run perform AdoptsOthers
        (start smallSyncer [(.run false, 100)] nobody (.fresh [])) trace
          pool ∧
      Own trace (film 1).key filmHash ∧
        ∃ share, pool.world.share? (film 1).key = some share ∧
          share.state = .seeding ∧ share.infoHash = some filmHash ∧
            share.created = true := by
  have alone := run_of_alone stubbornClient.admitted smallSyncer
    [(.run false, 100)] nobody (.fresh [])
  have quiet : ((smallSyncer.jobs [(.run false, 100)]).told
      stubbornClient.respond 0 0 (.fresh [])).all
        (fun event => !event.request.adopts) = true := by decide +kernel
  have run := alone.meeting AdoptsOthers
    fun earlier event later whole world => by
      rw [whole, List.all_append, List.all_cons] at quiet
      apply adoptsOthers_of_no_adoption
      simpa using (Bool.and_eq_true_iff.mp
        (Bool.and_eq_true_iff.mp quiet).2).1
  have own : Own ((smallSyncer.jobs [(.run false, 100)]).told
      stubbornClient.respond 0 0 (.fresh [])) (film 1).key filmHash :=
    own_of_scan (by decide +kernel)
  obtain ⟨share, found, seeding, under⟩ : ∃ share,
      ((smallSyncer.jobs [(.run false, 100)]).alone stubbornClient.respond 0
        (.fresh [])).world.share? (film 1).key = some share ∧
          share.state = .seeding ∧ share.infoHash = some filmHash :=
    ⟨⟨.seeding, some filmHash, true⟩, by decide +kernel, rfl, rfl⟩
  refine ⟨_, _, run, own, share, found, seeding, under, ?_⟩
  exact (created_added_and_own_created smallSyncer [(.run false, 100)] nobody
    []).2 _ _ run _ share filmHash found seeding under own

/-- One pass shares the film; an operator's unshare finds the client
unwilling; the next pass takes the torrent it finds there for somebody
else's. -/
def shareAgain : List (Job × Nat) :=
  [(.run false, 100), (.unshare (film 1).key, 100), (.run false, 100)]

theorem own_torrent_disowned :
    ∃ trace pool, Process.Run perform .always
        (start smallSyncer shareAgain nobody (.fresh [])) trace pool ∧
      ¬ OwnCreated ⟨pool.world, trace⟩ := by
  have run := run_of_alone stubbornClient.admitted smallSyncer shareAgain
    nobody (.fresh [])
  refine ⟨_, _, run, fun created => ?_⟩
  have found : ((smallSyncer.jobs shareAgain).alone stubbornClient.respond 0
      (.fresh [])).world.share? (film 1).key =
        some ⟨.seeding, some filmHash, false⟩ := by decide +kernel
  have own : Own ((smallSyncer.jobs shareAgain).told stubbornClient.respond 0
      0 (.fresh [])) (film 1).key filmHash :=
    own_of_scan (by decide +kernel)
  cases created _ _ _ found rfl rfl own

end Sync

end Sharerr
