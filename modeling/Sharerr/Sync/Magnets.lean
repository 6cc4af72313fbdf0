import Sharerr.Feed.Magnet
import Sharerr.Sync.Alone
import Sharerr.Sync.Genuine

/-!
# Magnets and private torrents

A magnet of a private torrent never resolves, so the feed gives none for an
item recorded as private.  What is recorded is right for the torrents sharerr
handed to the client.  An adopted torrent keeps whatever the row said of the
torrent before it.
-/

namespace Sharerr

namespace Sync

open Process

section Truth

variable (dictionaries : Dictionaries)

/-- The item is recorded as public only if its torrent is. -/
def Characterised (item : SharedItem) : Prop :=
  item.isPrivate = false → ∀ hash, item.infoHash = some hash →
    (dictionaries (Rust.toAsciiLowercase hash)).isPrivate = false

/-- A torrent sharerr did not hand to the client is recorded for an item that
was public only if it is public. -/
def AdoptsPublic (moment : Moment) (event : Event) : Prop :=
  ∀ thread key hash tokenFp created answer,
    event = ⟨thread, .update key (.setSeeding hash tokenFp created none),
      answer⟩ →
      ∀ row, moment.world.items.row? key = some row →
        row.isPrivate = false →
          (dictionaries (Rust.toAsciiLowercase hash)).isPrivate = false

/-- The rule, over the runs in which nothing private is adopted for what was
public. -/
def characterising : Protocol Nat World Call Answer where
  perform := perform
  condition moment event :=
    TorrentsGenuine dictionaries moment event ∧
      AdoptsPublic dictionaries moment event
  invariant moment := FiledRight dictionaries moment.past ∧
    ∀ row ∈ moment.world.items.rows,
      Characterised dictionaries row.toSharedItem
  guarantee _ _ _ := True

end Truth

section Proof

variable {dictionaries : Dictionaries} {syncer : Syncer}
variable {thread : Nat} {before after : Moment} {request : Call}
variable {answer : Answer request} {moment : Moment}

theorem Characterised.rediscovered {row : ItemRow} {item : SharedItem}
    (characterised : Characterised dictionaries row.toSharedItem)
    (unnamed : item.infoHash = none) :
    Characterised dictionaries (row.rediscovered item).toSharedItem := by
  intro public_ hash named
  apply characterised public_ hash
  rw [← named, ItemRow.rediscovered, unnamed]
  rfl

theorem Characterised.update {row : ItemRow} {update : ItemUpdate}
    (characterised : Characterised dictionaries row.toSharedItem)
    (recorded : ∀ hash tokenFp created isPrivate,
      update = .setSeeding hash tokenFp created isPrivate →
        isPrivate.getD row.isPrivate = false →
          (dictionaries (Rust.toAsciiLowercase hash)).isPrivate = false) :
    Characterised dictionaries (update.apply row).toSharedItem := by
  cases update with
  | setSeeding hash tokenFp created isPrivate =>
    intro public_ other named
    cases named
    exact recorded hash tokenFp created isPrivate rfl public_
  | resetForRebuild =>
    intro public_
    cases public_
  | _ => exact characterised

theorem characterised_of_performed
    (unnamed : ∀ item now, request = .upsert item now → item.infoHash = none)
    (recorded : ∀ key hash tokenFp created isPrivate,
      request = .update key (.setSeeding hash tokenFp created isPrivate) →
        ∀ row, before.world.items.row? key = some row →
          isPrivate.getD row.isPrivate = false →
            (dictionaries (Rust.toAsciiLowercase hash)).isPrivate = false)
    (performed : Performed (characterising dictionaries) thread before
      request answer after) :
    ∀ row ∈ after.world.items.rows,
      Characterised dictionaries row.toSharedItem := by
  refine forall_rows_of_performed thread ?_ ?_ ?_ performed.performed
    performed.holds.2
  · intro item now same row _ characterised
    exact characterised.rediscovered (unnamed item now same)
  · intro item now same id _ hash named
    rw [show (item.newRow id now).infoHash = item.infoHash from rfl,
      unnamed item now same] at named
    cases named
  · rintro key update rfl row member named characterised
    apply characterised.update
    rintro hash tokenFp created isPrivate rfl
    exact recorded key hash tokenFp created isPrivate rfl row
      (ItemTable.row?_eq_some_iff.mpr ⟨member, named⟩)

theorem trusting_characterising :
    Trusting dictionaries (characterising dictionaries) where
  genuine meets := meets.1
  filed holds := holds.1
  kept performed filed :=
    ⟨⟨filed, characterised_of_performed (by simp) (by simp) performed⟩,
      trivial⟩

theorem keepsSilent_characterising :
    KeepsSilent (characterising dictionaries) where
  kept := by
    intro thread before request answer after _ silent performed
    refine ⟨⟨?_, ?_⟩, trivial⟩
    · rw [performed.past]
      apply performed.holds.1.append
      rintro key inner rfl
      exact Seeder.Call.Unfiled.right silent
    · refine characterised_of_performed ?_ ?_ performed
      · rintro item now rfl
        exact silent
      · rintro key hash tokenFp created isPrivate rfl
        exact silent.elim

theorem safe_recordIdentity_characterising (key : ItemKey)
    (entry : Syncer.Recorded) :
    Safe (characterising dictionaries) 0 (fun _ _ => True)
      (syncer.recordIdentity key entry) moment := by
  have noting : (syncer.recordIdentity key entry).Only fun request =>
      request.IsSilent ∨
        ∃ infoHashV2, request = .update key (.setInfoHashV2 infoHashV2) := by
    cases double : entry.infoHashV2 with
    | none =>
      exact (recordOrigin_silent syncer key entry double).mono
        fun _ silent => .inl silent
    | some infoHashV2 =>
      unfold Syncer.recordIdentity
      dsimp only
      rw [double]
      exact ⟨.inr ⟨infoHashV2, rfl⟩, fun _ => Prog.Only.proceed _ fun _ =>
        ⟨.inl trivial, fun _ => Prog.Only.proceed _ fun _ =>
          ⟨.inl trivial, fun _ => trivial⟩⟩⟩
  apply Safe.of_only (fun _ _ _ _ => trivial) _ noting trivial
  rintro before request answer after (silent | ⟨infoHashV2, rfl⟩) _ performed
  · obtain ⟨invariant, guarantee⟩ :=
      keepsSilent_characterising.kept (.inl rfl) silent performed
    exact ⟨invariant, guarantee, trivial⟩
  · refine ⟨⟨?_, characterised_of_performed (by simp) (by simp) performed⟩,
      trivial, trivial⟩
    rw [performed.past]
    apply performed.holds.1.append
    rintro other inner ⟨⟩

theorem safe_recordSeeded_characterising {pass : PassContext} {key : ItemKey}
    {stamp : Option FileStamp} {outcome : SeedOutcome}
    (true_ : Seeder.TrueOutcome dictionaries outcome) :
    Safe (characterising dictionaries) 0 (fun _ _ => True)
      (syncer.recordSeeded pass key stamp outcome) moment := by
  intro before _ set after performed
  have known : ∀ isPrivate,
      (Syncer.recorded stamp outcome).isPrivate = some isPrivate →
        isPrivate = (dictionaries
          (Rust.toAsciiLowercase outcome.infoHash)).isPrivate := by
    intro isPrivate recorded
    match outcome, true_ with
    | .added hash told v2, true_ =>
      cases recorded
      exact true_.1
    | .joined hash origin (some added), true_ =>
      cases recorded
      exact true_.1
    | .joined hash origin none, _ => cases recorded
    | .reused hash upstream, _ => cases recorded
  have characterised : ∀ row ∈ after.world.items.rows,
      Characterised dictionaries row.toSharedItem := by
    refine characterised_of_performed (by simp) ?_ performed
    intro other hash tokenFp created isPrivate same row found public_
    cases same
    cases told : (Syncer.recorded stamp outcome).isPrivate with
    | some isPrivate =>
      rw [told] at public_
      rw [← known isPrivate told]
      exact public_
    | none =>
      rw [told] at public_
      exact performed.meets.2 0 key _ _ _ set (by rw [told]) row found
        public_
  refine ⟨⟨?_, characterised⟩, trivial, ?_⟩
  · rw [performed.past]
    apply performed.holds.1.append
    rintro other inner ⟨⟩
  · apply Safe.proceed
    · exact fun _ _ => trivial
    · exact fun _ _ => safe_recordIdentity_characterising ..

theorem covered_characterising : Covered syncer (characterising dictionaries) :=
  keepsSilent_characterising.covered trusting_characterising
    (fun _ _ => trivial) fun _ _ _ _ _ true_ =>
      safe_recordSeeded_characterising true_

/-- What a visitor read of the rows is characterised. -/
def FedRight (dictionaries : Dictionaries) (outcome : Outcome) : Prop :=
  ∀ items, outcome = .fed (.ok items) → ∀ item ∈ items,
    Characterised dictionaries item

theorem characterised_of_seedingItems {scope : PeerScope}
    {items : List SharedItem}
    (performed : Performed (characterising dictionaries) thread before
      (.seedingItems scope) (.ok items) after) :
    ∀ item ∈ items, Characterised dictionaries item := by
  intro item member
  have read : reading (ε := StoreError) before.world
      (before.world.items.seedingItems scope) (.ok items) = some after.world :=
    performed.performed
  rw [value_of_reading read] at member
  obtain ⟨row, listed, rfl⟩ :=
    List.mem_map.mp (ItemTable.mem_seedingItems.mp member).1
  exact performed.holds.2 row listed

theorem safe_visitor_fed (visitor : Visitor) (thread : Nat) :
    Safe (characterising dictionaries) thread
      (fun outcome _ => FedRight dictionaries outcome) visitor.program
        moment := by
  have kept : ∀ {before after : Moment} {request : Call}
      {answer : Answer request},
      Performed (characterising dictionaries) thread before request answer
        after → request.IsVisit →
          (characterising dictionaries).invariant after ∧
            (characterising dictionaries).guarantee thread before after :=
    fun performed visit =>
      keepsSilent_characterising.kept (.inr visit) visit.silent performed
  have nothing : ∀ reason, FedRight dictionaries (.fed (.error reason)) :=
    fun _ _ impossible => nomatch impossible
  have admits : ∀ {items : List SharedItem} limits rows,
      (∀ item ∈ items, Characterised dictionaries item) →
        FedRight dictionaries (.fed (.ok (admitted limits rows items))) := by
    intro items limits rows characterised other same item member
    cases same
    exact characterised item (List.mem_of_mem_filter member)
  cases visitor with
  | edits torrents =>
    intro before _ answer after performed
    obtain ⟨invariant, guarantee⟩ := kept performed trivial
    exact ⟨invariant, guarantee, fun _ impossible => nomatch impossible⟩
  | reads itemsFirst scope limits =>
    unfold Visitor.program seedingItemsFor
    cases itemsFirst with
    | true =>
      intro before _ items after performed
      obtain ⟨invariant, guarantee⟩ := kept performed trivial
      refine ⟨invariant, guarantee, ?_⟩
      cases items with
      | error reason => exact nothing _
      | ok items =>
        have characterised := characterised_of_seedingItems performed
        intro before _ rows after performed
        obtain ⟨invariant, guarantee⟩ := kept performed trivial
        refine ⟨invariant, guarantee, ?_⟩
        cases rows with
        | error reason => exact nothing _
        | ok rows => exact admits limits rows characterised
    | false =>
      intro before _ rows after performed
      obtain ⟨invariant, guarantee⟩ := kept performed trivial
      refine ⟨invariant, guarantee, ?_⟩
      cases rows with
      | error reason => exact nothing _
      | ok rows =>
        intro before _ items after performed
        obtain ⟨invariant, guarantee⟩ := kept performed trivial
        refine ⟨invariant, guarantee, ?_⟩
        cases items with
        | error reason => exact nothing _
        | ok items =>
          exact admits limits rows
            (characterised_of_seedingItems performed)

end Proof

/-- In every run, under whatever settings, in which nothing private is adopted
for an item recorded as public, the feeds give magnets of public torrents
only. -/
theorem magnets_are_public (dictionaries : Dictionaries)
    (work : List (Syncer × List (Job × Nat))) (visitors : Nat → Visitor)
    (client : List TorrentSummary) (events : List Event) (final : Pool)
    (run : Process.Run perform
      (fun moment event => TorrentsGenuine dictionaries moment event ∧
        AdoptsPublic dictionaries moment event)
      (startChanging work visitors (.fresh client)) events final)
    (thread : Nat) (items : List SharedItem)
    (fed : final.threads thread = .done (.fed (.ok items)))
    (found : SharedItem → Bool) (magnetLinks : Bool)
    (announces : List String) (item : SharedItem) (hash : String)
    (member : item ∈ (Feed.collect found magnetLinks announces items).items)
    (named : item.infoHash = some hash)
    (magnet :
      (Feed.collect found magnetLinks announces items).magnetUrl item ≠ "") :
    (dictionaries (Rust.toAsciiLowercase hash)).isPrivate = false := by
  have begun : (characterising dictionaries).invariant ⟨.fresh client, []⟩ :=
    ⟨fun _ _ _ _ member => absurd member List.not_mem_nil,
      fun _ member => absurd member List.not_mem_nil⟩
  have sound : Sound (characterising dictionaries)
      (fun _ outcome _ => FedRight dictionaries outcome) []
      (startChanging work visitors (.fresh client)) := by
    refine ⟨begun, fun thread => ?_⟩
    unfold startChanging
    dsimp only
    split
    · rename_i first
      subst first
      apply (Covered.safe_sequence (fun _ => covered_characterising) work
        begun).bind
      exact fun _ _ _ _ impossible => nomatch impossible
    · exact safe_visitor_fed _ thread
  have reached := Run.sound (fun _ _ _ _ fed _ => fed) run sound
  exact reached.finished fed items rfl item (List.mem_of_mem_filter member)
    (Feed.magnetUrl_ne_empty_iff.mp magnet).2.1 hash named

/-- The film's torrent as it is built while torrents are to be public. -/
def openInfo : Info := { filmTorrent.info with isPrivate := false }

def openTorrent : Torrent := { filmTorrent with info := openInfo }

def closedHash : String := "91c0ffee1e7a2d4086b9c1e2f3a4d5b6c7d8e9f0"

/-- A private torrent of a later copy of the film. -/
def closedInfo : Info :=
  ⟨closedHash, none, some "alphaville.mkv", none, 4096, true⟩

def filmInfos : Dictionaries := fun hash =>
  if hash = closedHash then closedInfo else openInfo

/-- The operator's torrent of that copy. -/
def closedTorrent : TorrentSummary where
  hash := closedHash
  name := "alphaville.mkv"
  savePath := "/films/guild"
  contentPath := "/films/guild/alphaville.mkv"
  category := "films"
  tags := []
  isSeeding := true
  isStopped := false
  ratio := none
  ratioLimit := none
  uploadLimitKib := none

/-- The film where the library keeps the later copy. -/
def laterFilm : Discovered :=
  { film 1 with arrPath := "/films/guild/alphaville.mkv" }

/-- The small library, whose factory builds public torrents. -/
def openFilm (item : Discovered) (own : item.source = .radarr) :
    Environment :=
  { Environment.small (fun _ => none) ⟨[item], true, []⟩ (valid_single own) with
    cached := fun _ _ => .ok none
    exported := fun _ _ => some (.encoded
      ⟨some "http://guild/announce", none, closedInfo⟩)
    create := fun _ _ => .finished ⟨filmHash, none, openTorrent.encode, 4096⟩ }

/-- The syncer whose settings ask for public torrents. -/
def openSyncer : Syncer :=
  { smallSyncer with seeder :=
      { smallSyncer.seeder with seeding :=
          { smallSyncer.seeder.seeding with isPrivate := false } } }

/-- The film is shared and withdrawn, in 31 calls; then the settings ask for
private torrents, and it is shared again. -/
def closing : List (Syncer × List (Job × Nat)) :=
  [(openSyncer, [(.run false, 100), (.unshare (film 1).key, 10)]),
    (smallSyncer, [(.run false, 100)])]

/-- The library gets its later copy after a number of calls. -/
def replacing (calls : Nat) : Responder World Call Answer :=
  switched (openFilm (film 1) first_film_source) (openFilm laterFilm rfl) calls

/-- Everyone who visits reads the feed. -/
def everybody : Nat → Visitor := fun _ =>
  .reads true .all ⟨none, none, none⟩

/-- The events of the syncers, and of a visitor who reads the feed
afterwards. -/
def readAfterwards (work : List (Syncer × List (Job × Nat)))
    (respond : Responder World Call Answer) (client : List TorrentSummary) :
    List Event :=
  let ended := ((sequence work).alone respond 0 (.fresh client)).world
  (sequence work).told respond 0 0 (.fresh client) ++
    [⟨1, .seedingItems .all, .ok (ended.items.seedingItems .all)⟩,
      ⟨1, .audiences, .ok ended.audience⟩]

/-- The item a visitor was fed with a torrent of this hash and a magnet. -/
def magnetOf (hash : String) (pool : Pool) : Option SharedItem :=
  (fedTo 1 pool).bind fun items =>
    let matched := Feed.collect (fun _ => true) true [] items
    matched.items.find? fun item =>
      matched.magnetUrl item ≠ "" ∧ item.infoHash = some hash

theorem fed_of_magnetOf {hash : String} {pool : Pool} {item : SharedItem}
    (given : magnetOf hash pool = some item) :
    ∃ items, pool.threads 1 = .done (.fed (.ok items)) ∧
      item ∈ (Feed.collect (fun _ => true) true [] items).items ∧
        (Feed.collect (fun _ => true) true [] items).magnetUrl item ≠ "" ∧
          item.infoHash = some hash := by
  obtain ⟨items, fed, found⟩ := Option.bind_eq_some_iff.mp given
  have holds := List.find?_some found
  have named := of_decide_eq_true holds
  exact ⟨items, threads_of_fedTo fed, List.mem_of_find?_eq_some found,
    named.1, named.2⟩

theorem adoptsPublic_of_adoptsNothing {dictionaries : Dictionaries}
    {moment : Moment} {event : Event} (nothing : adoptsNothing event = true) :
    AdoptsPublic dictionaries moment event := by
  rintro thread key hash tokenFp created answer rfl
  cases nothing

/-- A film that was public, and has been replaced by a private torrent since,
is fed with a magnet of it. -/
theorem adopted_private_torrent_has_magnet :
    ∃ events final, Process.Run perform (TorrentsGenuine filmInfos)
        (startChanging closing everybody (.fresh [closedTorrent])) events
          final ∧
      ∃ items, final.threads 1 = .done (.fed (.ok items)) ∧
        ∃ item ∈ (Feed.collect (fun _ => true) true [] items).items,
          item.infoHash = some closedHash ∧
          (Feed.collect (fun _ => true) true [] items).magnetUrl item ≠ "" ∧
            (filmInfos (Rust.toAsciiLowercase closedHash)).isPrivate =
              true := by
  have replayed : ((Process.replay perform
      (fun _ event => tellsTruth filmInfos event) []
      (startChanging closing everybody (.fresh [closedTorrent]))
      (readAfterwards closing (replacing 31) [closedTorrent])).map
        fun pool => (magnetOf closedHash pool).isSome) = some true := by
    decide +kernel
  obtain ⟨final, run, given⟩ := Process.Run.exists_of_replay
    (fun _ _ tells => genuine_of_tellsTruth tells) replayed
  obtain ⟨item, given⟩ := Option.isSome_iff_exists.mp given
  obtain ⟨items, fed, member, magnet, named⟩ := fed_of_magnetOf given
  exact ⟨_, final, run, items, fed, item, member, named, magnet, by decide⟩

/-- A public film is fed with a magnet of its public torrent. -/
theorem public_film_has_magnet :
    ∃ events final, Process.Run perform
        (fun moment event => TorrentsGenuine filmInfos moment event ∧
          AdoptsPublic filmInfos moment event)
        (startChanging ([(openSyncer, [(.run false, 100)])]) everybody
          (.fresh [])) events final ∧
      ∃ items, final.threads 1 = .done (.fed (.ok items)) ∧
        ∃ item ∈ (Feed.collect (fun _ => true) true [] items).items,
          (Feed.collect (fun _ => true) true [] items).magnetUrl item ≠ "" ∧
            (filmInfos (Rust.toAsciiLowercase filmHash)).isPrivate =
              false := by
  have replayed : ((Process.replay perform
      (fun _ event => tellsTruth filmInfos event && adoptsNothing event) []
      (startChanging ([(openSyncer, [(.run false, 100)])]) everybody
        (.fresh []))
      (readAfterwards ([(openSyncer, [(.run false, 100)])])
        (replacing 31) [])).map
        fun pool => (magnetOf filmHash pool).isSome) = some true := by
    decide +kernel
  have checked : ∀ (moment : Moment) event,
      (tellsTruth filmInfos event && adoptsNothing event) = true →
        TorrentsGenuine filmInfos moment event ∧
          AdoptsPublic filmInfos moment event := by
    intro moment event checked
    obtain ⟨tells, nothing⟩ := Bool.and_eq_true_iff.mp checked
    exact ⟨genuine_of_tellsTruth tells, adoptsPublic_of_adoptsNothing nothing⟩
  obtain ⟨final, run, given⟩ := Process.Run.exists_of_replay checked replayed
  obtain ⟨item, given⟩ := Option.isSome_iff_exists.mp given
  obtain ⟨items, fed, member, magnet, named⟩ := fed_of_magnetOf given
  exact ⟨_, final, run, items, fed, item, member, magnet,
    magnets_are_public filmInfos _ _ _ _ _ run 1 items fed _ _ _ item filmHash
      member named magnet⟩

end Sync

end Sharerr
