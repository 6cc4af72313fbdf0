import Sharerr.Sync.Genuine
import Sharerr.Sync.Parts
import Sharerr.Sync.Reports

/-!
# The two identities of a hybrid torrent

The tracker admits announces by the hash, and by the second identity, that a
row records.  What a row records is right for the torrents sharerr handed to
the client; of an adopted torrent only the hash is recorded.
-/

namespace Sharerr

namespace Sync

open Process

section Identities

variable (dictionaries : Dictionaries)

/-- The second identity of the torrent an item is recorded under. -/
def SharedItem.secondIdentity (item : SharedItem) : Option String :=
  item.infoHash.bind fun hash =>
    (dictionaries (Rust.toAsciiLowercase hash)).infoHashV2

/-- A hash that stands for the torrent an item is recorded under. -/
def SharedItem.IsIdentity (item : SharedItem) (hash : String) : Prop :=
  item.infoHash = some hash ∨
    SharedItem.secondIdentity dictionaries item = some hash

/-- What the tracker has to admit, and not more, but for the items `pending`
says nothing is asked of. -/
structure AdmitsIdentities (pending : ItemKey → Prop) (table : ItemTable) :
    Prop where
  both : ∀ row ∈ table.rows, row.state = .seeding → ¬ pending row.key →
    ∀ hash, SharedItem.IsIdentity dictionaries row.toSharedItem hash →
      table.isShared hash = true
  nothingElse : ∀ hash,
    (∀ row ∈ table.rows, row.state = .seeding ∨ row.state = .pending →
      ¬ SharedItem.IsIdentity dictionaries row.toSharedItem hash) →
        table.isShared hash = false

/-- The row records the second identity its torrent has. -/
def Identified (row : ItemRow) : Prop :=
  row.infoHashV2 = SharedItem.secondIdentity dictionaries row.toSharedItem

/-- The syncer's last call recorded a torrent for the item. -/
def BeingRecorded (past : List Event) (key : ItemKey) : Prop :=
  ∃ earlier later hash tokenFp created isPrivate answer,
    past = earlier ++ (⟨0, .update key
        (.setSeeding hash tokenFp created isPrivate), answer⟩ : Event) ::
          later ∧
      ∀ event ∈ later, event.thread ≠ 0

/-- No write to an item fails. -/
def Updates (event : Event) : Prop :=
  ∀ thread key update answer,
    event = ⟨thread, .update key update, answer⟩ → answer = .ok ()

/-- A torrent sharerr did not hand to the client is not a hybrid one. -/
def AdoptsSingle (event : Event) : Prop :=
  ∀ thread key hash tokenFp created answer,
    event = ⟨thread, .update key (.setSeeding hash tokenFp created none),
      answer⟩ →
      (dictionaries (Rust.toAsciiLowercase hash)).infoHashV2 = none

/-- The rule: between the calls, every row records what its torrent has, or is
about to. -/
def identifying : Protocol Nat World Call Answer where
  perform := perform
  condition moment event := TorrentsGenuine dictionaries moment event ∧
    Updates event ∧ AdoptsSingle dictionaries event
  invariant moment := FiledRight dictionaries moment.past ∧
    ∀ row ∈ moment.world.items.rows, Identified dictionaries row ∨
      row.infoHashV2 = none ∧ BeingRecorded moment.past row.key
  guarantee thread before after := thread ≠ 0 →
    after.world = { before.world with client := after.world.client }

/-- Every row records what its torrent has. -/
def AllIdentified (moment : Moment) : Prop :=
  ∀ row ∈ moment.world.items.rows, Identified dictionaries row

end Identities

variable {dictionaries : Dictionaries}

theorem isShared_eq_true_iff {table : ItemTable} {hash : String} :
    table.isShared hash = true ↔ ∃ row ∈ table.rows,
      (row.infoHash = some hash ∨ row.infoHashV2 = some hash) ∧
        (row.state = .seeding ∨ row.state = .pending) := by
  simp [ItemTable.isShared]

/-- Where every row that is not pending records what its torrent has, the
tracker admits what it has to. -/
theorem admitsIdentities {pending : ItemKey → Prop} {table : ItemTable}
    (all : ∀ row ∈ table.rows, Identified dictionaries row ∨
      row.infoHashV2 = none ∧ pending row.key) :
    AdmitsIdentities dictionaries pending table := by
  constructor
  · intro row member seeding ready hash identity
    have identified : Identified dictionaries row :=
      (all row member).resolve_right fun waiting => ready waiting.2
    refine isShared_eq_true_iff.mpr ⟨row, member, ?_, .inl seeding⟩
    exact identity.imp_right identified.trans
  · intro hash unknown
    rw [← Bool.not_eq_true, isShared_eq_true_iff]
    rintro ⟨row, member, first | second, shared⟩
    · exact unknown row member shared (.inl first)
    · rcases all row member with identified | ⟨single, -⟩
      · exact unknown row member shared (.inr (identified.symm.trans second))
      · rw [single] at second
        cases second

theorem Identified.rediscovered {row : ItemRow} {item : SharedItem}
    (identified : Identified dictionaries row)
    (unnamed : item.infoHash = none) :
    Identified dictionaries (row.rediscovered item) := by
  unfold Identified SharedItem.secondIdentity ItemRow.rediscovered
  rw [unnamed]
  exact identified

theorem Identified.update {row : ItemRow} {key : ItemKey}
    {update : ItemUpdate} (identified : Identified dictionaries row)
    (silent : (Call.update key update).IsSilent) :
    Identified dictionaries (update.apply row) := by
  cases update with
  | setSeeding | setInfoHashV2 => exact silent.elim
  | resetForRebuild => rfl
  | _ => exact identified

section Proof

variable {syncer : Syncer} {thread : Nat} {before after moment : Moment}
variable {request : Call} {answer : Answer request} {α : Type}

theorem allIdentified_of_performed (silent : request.IsSilent)
    (performed : perform 0 before.world request answer = some after.world)
    (all : AllIdentified dictionaries before) :
    AllIdentified dictionaries after := by
  refine forall_rows_of_performed 0 ?_ ?_ ?_ performed all
  · rintro item now rfl row - identified
    exact identified.rediscovered silent
  · rintro item now rfl id
    show (none : Option String) = item.infoHash.bind _
    rw [show item.infoHash = none from silent]
    rfl
  · rintro key update rfl row - - identified
    exact identified.update silent

variable {key : ItemKey} {hash : String} {items : ItemTable}

theorem BeingRecorded.append {past : List Event} {event : Event}
    (recorded : BeingRecorded past key) (other : event.thread ≠ 0) :
    BeingRecorded (past ++ [event]) key := by
  obtain ⟨earlier, later, hash, tokenFp, created, isPrivate, answer, rfl,
    silent⟩ := recorded
  refine ⟨earlier, later ++ [event], hash, tokenFp, created, isPrivate, answer,
    by simp, ?_⟩
  intro among member
  rcases List.mem_append.mp member with old | new
  · exact silent among old
  · rw [List.mem_singleton.mp new]
    exact other

theorem identifying_visit (visit : request.IsVisit) (other : thread ≠ 0)
    (performed : Performed (identifying dictionaries) thread before request
      answer after) :
    (identifying dictionaries).invariant after ∧
      (identifying dictionaries).guarantee thread before after := by
  have same := perform_visit thread visit performed.performed
  refine ⟨⟨?_, ?_⟩, fun _ => same⟩
  · rw [performed.past]
    apply performed.holds.1.append
    rintro key inner rfl
    exact visit.elim
  · intro row member
    rw [same] at member
    rcases performed.holds.2 row member with identified | ⟨single, recorded⟩
    · exact .inl identified
    · rw [performed.past]
      exact .inr ⟨single, recorded.append other⟩

theorem stable_items (property : ItemTable → Prop) :
    (identifying dictionaries).Stable 0 fun moment =>
      property moment.world.items := by
  rintro before after holds ⟨other, different, guaranteed, -⟩
  rw [guaranteed different]
  exact holds

theorem stable_allIdentified :
    (identifying dictionaries).Stable 0 (AllIdentified dictionaries) :=
  stable_items fun items => ∀ row ∈ items.rows, Identified dictionaries row

theorem filed_of_performed
    (performed : Performed (identifying dictionaries) thread before request
      answer after)
    (right : ∀ key inner, request = .seeder key inner →
      inner.FilesRight dictionaries) :
    FiledRight dictionaries after.past := by
  rw [performed.past]
  exact performed.holds.1.append right

theorem identifying_kept (before : Moment)
    (filed : FiledRight dictionaries after.past)
    (all : AllIdentified dictionaries after) :
    (identifying dictionaries).invariant after ∧
      (identifying dictionaries).guarantee 0 before after :=
  ⟨⟨filed, fun row member => .inl (all row member)⟩,
    fun different => absurd rfl different⟩

theorem safe_silent_identifying {program : Program α}
    (silent : program.Only Call.IsSilent)
    (all : AllIdentified dictionaries moment) :
    Safe (identifying dictionaries) 0
      (fun _ after => AllIdentified dictionaries after) program moment := by
  apply Safe.of_only stable_allIdentified _ silent all
  intro before request answer after silent all performed
  have filed := filed_of_performed performed fun key inner same => by
    subst same
    exact Seeder.Call.Unfiled.right silent
  have kept := allIdentified_of_performed silent performed.performed all
  obtain ⟨invariant, guarantee⟩ := identifying_kept before filed kept
  exact ⟨invariant, guarantee, kept⟩

theorem safe_forItem_identifying {program : Seeder.Program α} {good : α → Prop}
    (ensures : program.Ensures (Seeder.Call.FilesRight dictionaries)
      (Seeder.Honest dictionaries) good)
    (all : AllIdentified dictionaries moment) :
    Safe (identifying dictionaries) 0
      (fun value after => good value ∧ AllIdentified dictionaries after)
      (Syncer.forItem key program) moment := by
  have lifted : (Syncer.forItem key program).Ensures
      (fun request => ∃ inner : Seeder.Call, request = .seeder key inner ∧
        inner.FilesRight dictionaries) (Honest dictionaries) good :=
    ensures.lift (fun inner right => ⟨inner, rfl, right⟩)
      fun inner answer true_ => true_
  apply Safe.of_ensures stable_allIdentified _ lifted all
  rintro before _ answer after ⟨inner, rfl, right⟩ all performed
  have filed := filed_of_performed performed fun _ _ same => by
    cases same
    exact right
  have reads : ¬ (Call.seeder key inner).Writes := id
  have kept : AllIdentified dictionaries after := by
    unfold AllIdentified
    rw [perform_items 0 reads performed.performed]
    exact all
  obtain ⟨invariant, guarantee⟩ := identifying_kept before filed kept
  exact ⟨honest_of_genuine performed.meets.1 performed.holds.1, invariant,
    guarantee, kept⟩

theorem safe_confirmLive_identifying (pass : PassContext) (key : ItemKey)
    (known : SharedItem) (hash : String) (reported : TorrentSummary)
    (all : AllIdentified dictionaries moment) :
    Safe (identifying dictionaries) 0
      (fun _ after => AllIdentified dictionaries after)
      (syncer.confirmLive pass key known hash reported) moment := by
  apply (safe_silent_identifying (upstreamOf_silent ..) all).bind
  intro upstream moment all
  have limiting := (syncer.ratioLimitOf_common known hash reported).mono
    fun _ common => common.silent
  apply (safe_silent_identifying limiting all).bind
  intro ratioLimit moment all
  apply (safe_forItem_identifying
    (syncer.seeder.refreshAnnounce_ensures ..) all).bind
  rintro refreshed moment ⟨-, all⟩
  apply safe_silent_identifying _ all
  split <;> exact ⟨trivial, fun _ => trivial⟩

/-- The row of the item has a torrent and not yet a second identity; every
other row records what its torrent has. -/
def HalfRecorded (dictionaries : Dictionaries) (key : ItemKey) (hash : String)
    (items : ItemTable) : Prop :=
  ∀ row ∈ items.rows,
    if row.key = key then row.infoHash = some hash ∧ row.infoHashV2 = none
    else Identified dictionaries row

theorem halfRecorded_of_setSeeding {tokenFp : Option String} {created : Bool}
    {isPrivate : Option Bool}
    (all : ∀ row ∈ items.rows, Identified dictionaries row) :
    HalfRecorded dictionaries key hash
      (items.update key (.setSeeding hash tokenFp created isPrivate)) := by
  intro row member
  obtain ⟨before, among, rfl⟩ := List.mem_map.mp member
  by_cases named : before.key = key
  · simp only [named, if_true, ItemUpdate.apply_key]
    exact ⟨rfl, rfl⟩
  · simpa [named] using all before among

theorem HalfRecorded.single (half : HalfRecorded dictionaries key hash items)
    (single : (dictionaries (Rust.toAsciiLowercase hash)).infoHashV2 = none) :
    ∀ row ∈ items.rows, Identified dictionaries row := by
  intro row member
  have recorded := half row member
  split at recorded
  · unfold Identified SharedItem.secondIdentity
    rw [recorded.1, recorded.2]
    exact single.symm
  · exact recorded

theorem HalfRecorded.setInfoHashV2 {infoHashV2 : String}
    (half : HalfRecorded dictionaries key hash items)
    (double : (dictionaries (Rust.toAsciiLowercase hash)).infoHashV2 =
      some infoHashV2) :
    ∀ row ∈ (items.update key (.setInfoHashV2 infoHashV2)).rows,
      Identified dictionaries row := by
  intro row member
  obtain ⟨before, among, rfl⟩ := List.mem_map.mp member
  have recorded := half before among
  split
  · rename_i named
    rw [if_pos named] at recorded
    show some infoHashV2 = before.infoHash.bind _
    rw [recorded.1]
    exact double.symm
  · rename_i other
    rwa [if_neg other] at recorded

theorem BeingRecorded.last (past : List Event) (key : ItemKey) (hash : String)
    (tokenFp : Option String) (created : Bool) (isPrivate : Option Bool)
    (answer : Except StoreError Unit) :
    BeingRecorded (past ++ [⟨0, .update key
      (.setSeeding hash tokenFp created isPrivate), answer⟩]) key :=
  ⟨past, [], hash, tokenFp, created, isPrivate, answer, rfl,
    fun _ member => absurd member List.not_mem_nil⟩

theorem safe_recordIdentity_identifying {entry : Syncer.Recorded}
    (true_ : entry.infoHashV2 =
      (dictionaries (Rust.toAsciiLowercase hash)).infoHashV2)
    (half : HalfRecorded dictionaries key hash moment.world.items) :
    Safe (identifying dictionaries) 0
      (fun _ after => AllIdentified dictionaries after)
      (syncer.recordIdentity key entry) moment := by
  cases double : entry.infoHashV2 with
  | none =>
    apply safe_silent_identifying (recordOrigin_silent _ _ _ double)
    exact half.single (true_ ▸ double)
  | some infoHashV2 =>
    unfold Syncer.recordIdentity
    dsimp only
    rw [double]
    apply Safe.call (stable_items (HalfRecorded dictionaries key hash)) half
    intro before answer after half performed
    have answered := performed.meets.2.1 0 key _ answer rfl
    subst answered
    have world : after.world = before.world.updateItem key
        (.setInfoHashV2 infoHashV2) :=
      (Option.some.inj performed.performed).symm
    have all : AllIdentified dictionaries after := by
      unfold AllIdentified
      rw [world]
      exact half.setInfoHashV2 (true_ ▸ double)
    have filed := filed_of_performed performed fun _ _ => nofun
    obtain ⟨invariant, guarantee⟩ :=
      identifying_kept before filed all
    refine ⟨invariant, guarantee, ?_⟩
    apply safe_silent_identifying _ all
    exact ⟨trivial, fun _ => Prog.Only.proceed _ fun _ =>
      ⟨trivial, fun _ => trivial⟩⟩

/-- A torrent recorded as what it is leaves every row identified, if one that
was adopted has a single identity. -/
theorem safe_recordSeeded_identifying {pass : PassContext}
    {stamp : Option FileStamp} {outcome : SeedOutcome}
    (true_ : Seeder.TrueOutcome dictionaries outcome)
    (all : AllIdentified dictionaries moment) :
    Safe (identifying dictionaries) 0
      (fun _ after => AllIdentified dictionaries after)
      (syncer.recordSeeded pass key stamp outcome) moment := by
  apply Safe.call stable_allIdentified all
  intro before answer after all performed
  have answered := performed.meets.2.1 0 key _ answer rfl
  subst answered
  have known : (Syncer.recorded stamp outcome).infoHashV2 =
      (dictionaries (Rust.toAsciiLowercase outcome.infoHash)).infoHashV2 := by
    match outcome, true_, performed.meets.2.2 with
    | .added hash isPrivate infoHashV2, true_, _ => exact true_.2
    | .joined hash origin (some added), true_, _ => exact true_.2
    | .joined hash origin none, _, single =>
      exact (single 0 key hash _ _ _ rfl).symm
    | .reused hash upstream, _, single =>
      exact (single 0 key hash _ _ _ rfl).symm
  have world : after.world = before.world.updateItem key (.setSeeding
      outcome.infoHash pass.tokenFp (Syncer.recorded stamp outcome).created
        (Syncer.recorded stamp outcome).isPrivate) :=
    (Option.some.inj performed.performed).symm
  have half : HalfRecorded dictionaries key outcome.infoHash
      after.world.items := by
    rw [world]
    exact halfRecorded_of_setSeeding all
  refine ⟨⟨filed_of_performed performed fun _ _ => nofun, ?_⟩,
    fun different => absurd rfl different,
      safe_recordIdentity_identifying known half⟩
  intro row member
  have recorded := half row member
  split at recorded
  · rename_i named
    rw [named, performed.past]
    exact .inr ⟨recorded.2, .last ..⟩
  · exact .inl recorded

theorem Call.IsPart.silent (part : request.IsPart) :
    request.IsSilent :=
  part.elim Call.IsCommon.silent Call.IsOpening.silent

/-- A program after which every row records what its torrent has, if every row
did before. -/
def KeepsIdentified (dictionaries : Dictionaries) {α : Type}
    (program : Program α) : Prop :=
  ∀ moment, AllIdentified dictionaries moment →
    Safe (identifying dictionaries) 0
      (fun _ after => AllIdentified dictionaries after) program moment

theorem composes_identified :
    Composes (KeepsIdentified dictionaries) where
  done _ _ all := all
  bind first rest moment all :=
    (first moment all).bind fun value moment all => rest value moment all
  only part _ all :=
    safe_silent_identifying (part.mono fun _ part => part.silent) all

theorem parts_identified (syncer : Syncer) :
    Parts syncer (KeepsIdentified dictionaries) where
  toComposes := composes_identified
  watches pass item known stamps report _ all :=
    safe_silent_identifying
      (watch_silent syncer pass item known stamps report) all
  confirms _ _ _ _ _ _ all := safe_confirmLive_identifying _ _ _ _ _ all
  seeds := by
    intro pass item known paths
    have looking : (Call.fileStamp item.key paths.sharerr).IsCommon := trivial
    apply composes_identified.call (.inl looking)
    intro stamp
    have matching : (Call.catalogMatches item.key item.spec item.ids
        item.size).IsCommon := trivial
    apply composes_identified.call (.inl matching)
    intro entries moment all
    apply (safe_forItem_identifying (syncer.seeder.seed_ensures ..) all).bind
    rintro seeded moment ⟨true_, all⟩
    apply Safe.proceed
    · exact fun _ _ => all
    · exact fun outcome same =>
        safe_recordSeeded_identifying (true_ outcome same) all

theorem safe_visitor_identifying (visitor : Visitor) (other : thread ≠ 0) :
    Safe (identifying dictionaries) thread (fun _ _ => True) visitor.program
      moment := by
  apply Safe.of_only (fun _ _ _ _ => trivial) _ visitor.visits trivial
  intro before request answer after visit _ performed
  obtain ⟨invariant, guarantee⟩ := identifying_visit visit other performed
  exact ⟨invariant, guarantee, trivial⟩

end Proof

/-- In every run of whole jobs, under whatever settings, in which no write to
an item fails and no hybrid torrent is adopted, the tracker admits both
identities of the torrents, and nothing else: of every item but the one being
recorded, and of all once the syncer is done. -/
theorem both_identities_admitted (dictionaries : Dictionaries)
    (work : List (Syncer × List Job)) (visitors : Nat → Visitor)
    (client : List TorrentSummary) (events : List Event) (final : Pool)
    (run : Process.Run perform
      (fun moment event => TorrentsGenuine dictionaries moment event ∧
        Updates event ∧ AdoptsSingle dictionaries event)
      (startWhole work visitors (.fresh client)) events final) :
    AdmitsIdentities dictionaries (BeingRecorded events)
        final.world.items ∧
      (final.threads 0 = .done .finished →
        AdmitsIdentities dictionaries (fun _ => False) final.world.items) := by
  have begun : (identifying dictionaries).invariant ⟨.fresh client, []⟩ :=
    ⟨fun _ _ _ _ member => absurd member List.not_mem_nil,
      fun _ member => absurd member List.not_mem_nil⟩
  have sound : Sound (identifying dictionaries)
      (fun thread _ after => thread = 0 → AllIdentified dictionaries after) []
      (startWhole work visitors (.fresh client)) := by
    refine ⟨begun, fun thread => ?_⟩
    unfold startWhole
    dsimp only
    split
    · have all : AllIdentified dictionaries ⟨.fresh client, []⟩ :=
        fun _ member => absurd member List.not_mem_nil
      have kept : KeepsIdentified dictionaries (wholeSequence work) :=
        Parts.sequence composes_identified parts_identified work
      rename_i first
      subst first
      apply (kept _ all).bind
      exact fun _ _ all _ => all
    · rename_i other
      exact (safe_visitor_identifying _ other).mono
        fun _ _ _ same => absurd same other
  have stable : ∀ thread (outcome : Outcome),
      (identifying dictionaries).Stable thread
        fun after => thread = 0 → AllIdentified dictionaries after := by
    rintro thread outcome before after all others rfl
    exact stable_allIdentified before after (all rfl) others
  have reached := Run.sound stable run sound
  refine ⟨admitsIdentities reached.holds.2, fun ended => ?_⟩
  apply admitsIdentities
  exact fun row member => .inl (reached.finished ended rfl row member)

/-- The info dictionary of a hybrid torrent of the film. -/
def hybridInfo : Info :=
  { filmTorrent.info with
    infoHashV2 := some "7d8e9f0a1c0ffee2d4086b9c1e2f3a4d5b6c5f3c" }

def hybridTorrent : Torrent := { filmTorrent with info := hybridInfo }

/-- The operator's copy of it in the client. -/
def hybridSummary : TorrentSummary where
  hash := filmHash
  name := "alphaville.mkv"
  savePath := "/films"
  contentPath := "/films/alphaville.mkv"
  category := "films"
  tags := []
  isSeeding := true
  isStopped := false
  ratio := none
  ratioLimit := none
  uploadLimitKib := none

/-- The small library, whose factory builds hybrid torrents. -/
def hybridFilm : Environment :=
  { Environment.small (fun _ => none) ⟨[film 1], true, []⟩ valid_film with
    cached := fun _ _ => .ok none
    exported := fun _ _ => some hybridTorrent.encode
    create := fun _ _ =>
      .finished ⟨filmHash, none, hybridTorrent.encode, 4096⟩ }

/-- One pass over the film, answered by the small library. -/
def sharingOnce : List (Syncer × List Job) := [(smallSyncer, [.run false])]

def toldOnce (client : List TorrentSummary) : List Event :=
  ((startWhole sharingOnce nobody (.fresh client)).threads 0).told
    hybridFilm.respond 0 0 (.fresh client)

/-- Whether an event is not a failed write to an item. -/
def updates : Event → Bool
  | ⟨_, .update _ _, .error _⟩ => false
  | _ => true

theorem updates_of_check {event : Event} (checked : updates event = true) :
    Updates event := by
  rintro thread key update answer rfl
  cases answer with
  | ok done => rfl
  | error reason => cases checked

theorem adoptsSingle_of_adoptsNothing {event : Event}
    (nothing : adoptsNothing event = true) :
    AdoptsSingle dictionaries event := by
  rintro thread key hash tokenFp created answer rfl
  cases nothing

/-- What is seen of a run: whether the syncer is done, whether the film is
seeding under its hash, and whether the tracker admits the other one. -/
def seenIdentities (pool : Pool) : Bool × Bool × Bool :=
  ((match (pool.threads 0).result? with
    | some .finished => true
    | _ => false),
    pool.world.items.rows.any fun row =>
      row.state = .seeding ∧ row.infoHash = some filmHash,
    (hybridInfo.infoHashV2.map pool.world.items.isShared).getD false)

theorem done_of_seenIdentities {pool : Pool} {seeding shared : Bool}
    (seen : seenIdentities pool = (true, seeding, shared)) :
    pool.threads 0 = .done .finished := by
  have ended := congrArg Prod.fst seen
  unfold seenIdentities at ended
  dsimp only at ended
  split at ended
  · rename_i finished
    exact Prog.eq_done_of_result? finished
  · cases ended

/-- The second identity of an adopted hybrid torrent is not admitted. -/
theorem adopted_hybrid_torrent_has_one_identity :
    ∃ events final, Process.Run perform
        (fun moment event =>
          TorrentsGenuine (fun _ => hybridInfo) moment event ∧ Updates event)
        (startWhole sharingOnce nobody (.fresh [hybridSummary])) events
          final ∧
      final.threads 0 = .done .finished ∧
        ¬ AdmitsIdentities (fun _ => hybridInfo) (fun _ => False)
          final.world.items := by
  have replayed : (Process.replay perform
      (fun _ event => tellsTruth (fun _ => hybridInfo) event && updates event)
      [] (startWhole sharingOnce nobody (.fresh [hybridSummary]))
      (toldOnce [hybridSummary])).map seenIdentities =
        some (true, true, false) := by decide +kernel
  have checked : ∀ (moment : Moment) event,
      (tellsTruth (fun _ => hybridInfo) event && updates event) = true →
        TorrentsGenuine (fun _ => hybridInfo) moment event ∧
          Updates event := by
    intro moment event checked
    obtain ⟨tells, updated⟩ := Bool.and_eq_true_iff.mp checked
    exact ⟨genuine_of_tellsTruth tells, updates_of_check updated⟩
  obtain ⟨final, run, seen⟩ := Process.Run.exists_of_replay checked replayed
  refine ⟨_, final, run, done_of_seenIdentities seen, fun admits => ?_⟩
  have seeding : (seenIdentities final).2.1 = true := by rw [seen]
  have refused : (seenIdentities final).2.2 = false := by rw [seen]
  obtain ⟨row, member, same⟩ := List.any_eq_true.mp seeding
  obtain ⟨state, named⟩ := of_decide_eq_true same
  have identity : SharedItem.IsIdentity (fun _ => hybridInfo)
      row.toSharedItem "7d8e9f0a1c0ffee2d4086b9c1e2f3a4d5b6c5f3c" := by
    right
    unfold SharedItem.secondIdentity
    rw [named]
    rfl
  have shared := admits.both row member state id _ identity
  exact Bool.noConfusion (shared.symm.trans refused)

/-- Both identities of the film's hybrid torrent are admitted once it has been
built and shared. -/
theorem built_hybrid_torrent_has_both_identities :
    ∃ final : Pool,
      AdmitsIdentities (fun _ => hybridInfo) (fun _ => False)
          final.world.items ∧
        final.world.items.isShared filmHash = true := by
  have replayed : (Process.replay perform
      (fun _ event => tellsTruth (fun _ => hybridInfo) event &&
        (updates event && adoptsNothing event))
      [] (startWhole sharingOnce nobody (.fresh [])) (toldOnce [])).map
        seenIdentities = some (true, true, true) := by decide +kernel
  have checked : ∀ (moment : Moment) event,
      (tellsTruth (fun _ => hybridInfo) event &&
        (updates event && adoptsNothing event)) = true →
        TorrentsGenuine (fun _ => hybridInfo) moment event ∧
          Updates event ∧ AdoptsSingle (fun _ => hybridInfo) event := by
    intro moment event checked
    obtain ⟨tells, rest⟩ := Bool.and_eq_true_iff.mp checked
    obtain ⟨updated, nothing⟩ := Bool.and_eq_true_iff.mp rest
    exact ⟨genuine_of_tellsTruth tells, updates_of_check updated,
      adoptsSingle_of_adoptsNothing nothing⟩
  obtain ⟨final, run, seen⟩ := Process.Run.exists_of_replay checked replayed
  have admits := (both_identities_admitted (fun _ => hybridInfo) _ _ _ _ _
    run).2 (done_of_seenIdentities seen)
  refine ⟨final, admits, ?_⟩
  have seeding : (seenIdentities final).2.1 = true := by rw [seen]
  obtain ⟨row, member, same⟩ := List.any_eq_true.mp seeding
  obtain ⟨state, named⟩ := of_decide_eq_true same
  exact admits.both row member state id _ (.inl named)

end Sync

end Sharerr
