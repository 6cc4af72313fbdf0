import Sharerr.Sync.Alone
import Sharerr.Sync.Passes

/-!
# What is filed in the torrent directory

The feed hands friends the `.torrent` files of the torrent directory, so they
may announce nowhere but here.  All but one of the writers rewrite the announce
URLs of what they file; the one that does not is the adoption of a torrent
whose first URL is already ours.
-/

namespace Sharerr

/-- Every announce URL of the file is an allowed one. -/
def TorrentFile.Announces (allowed : String → Prop) (data : TorrentFile) :
    Prop :=
  ∀ url ∈ data.announceUrls, allowed url

section Rewriting

variable {allowed : String → Prop} {announce : AnnounceSet}

theorem Torrent.announcingTo_announces (torrent : Torrent)
    (ours : ∀ url ∈ announce.tiers, allowed url) :
    (torrent.announcingTo announce).encode.Announces allowed :=
  fun _ member => ours _ (torrent.mem_tiers_of_announcingTo member)

variable {data : TorrentFile}

variable {rewritten : TorrentFile} {torrent : Torrent}

theorem announces_of_rewriteAnnounce
    (ours : ∀ url ∈ announce.tiers, allowed url)
    (rewrote : rewriteAnnounce data announce = .ok rewritten) :
    rewritten.Announces allowed := by
  obtain ⟨torrent, -, made⟩ := Rust.bind_eq_ok rewrote
  cases made
  exact torrent.announcingTo_announces ours

theorem announces_of_updated {previous : Option String}
    (ours : ∀ url ∈ announce.tiers, allowed url)
    (rewrote : retargetAnnounce data announce =
      .ok (.updated previous torrent rewritten)) :
    rewritten.Announces allowed := by
  obtain ⟨read, rfl, ⟨-, other⟩ | same⟩ := retargetAnnounce_cases rewrote
  · cases other
  · cases same
    exact read.announcingTo_announces ours

theorem eq_encode_of_current
    (kept : retargetAnnounce data announce = .ok (.current torrent)) :
    data = torrent.encode ∧ torrent.announce = some announce.primary := by
  obtain ⟨read, rfl, ⟨first, same⟩ | other⟩ := retargetAnnounce_cases kept
  · cases same
    exact ⟨rfl, first⟩
  · cases other

end Rewriting

namespace Seeder

open Process (Prog)
open Process.Prog (Only)

/-- The requests that file nothing but what announces where allowed, and
replace the client's trackers only if that is. -/
def Call.Files (allowed : String → Prop) (resets : Prop) : Call → Prop
  | .writeCached _ data => data.Announces allowed
  | .setTrackers _ _ => resets
  | _ => True

variable {allowed : String → Prop} {resets : Prop}

theorem searchFiles_files (target : String)
    (torrents : List TorrentSummary) :
    (searchFiles target torrents).Only (Call.Files allowed resets) := by
  induction torrents with
  | nil => trivial
  | cons torrent torrents ih =>
    refine ⟨trivial, fun listed => ?_⟩
    cases listed with
    | error reason => exact ih
    | ok files =>
      dsimp only
      split
      · trivial
      · exact ih

theorem findExisting_files (torrents : List TorrentSummary) (target : String) :
    (findExisting torrents target).Only (Call.Files allowed resets) := by
  unfold findExisting
  split
  · trivial
  · exact searchFiles_files ..

theorem contentSize_files (path : String)
    (files : List String) :
    (contentSize path files).Only (Call.Files allowed resets) := by
  have sums : ∀ dir total names,
      (sumLengths dir total names).Only (Call.Files allowed resets) := by
    intro dir total names
    induction names generalizing total with
    | nil => trivial
    | cons name names ih =>
      exact ⟨trivial, fun _ => Only.proceed _ fun _ => ih _⟩
  unfold contentSize
  split
  · exact ⟨trivial, fun _ => trivial⟩
  · exact sums ..

theorem cachedSizeIsStale_files (path : String)
    (files : List String) (length : Nat) :
    (cachedSizeIsStale path files length).Only (Call.Files allowed resets) := by
  apply (contentSize_files ..).bind
  intro size
  cases size <;> trivial

variable {announce : AnnounceSet}

theorem reuseCached_files (ours : ∀ url ∈ announce.tiers, allowed url)
    (known : Option String) (paths : ResolvedPaths) :
    (reuseCached known announce paths).Only (Call.Files allowed resets) := by
  cases known with
  | none => trivial
  | some hash =>
    refine ⟨trivial, fun read => ?_⟩
    dsimp only
    split
    · trivial
    · trivial
    · split
      · trivial
      · rename_i outcome retargeted
        apply (cachedSizeIsStale_files ..).bind
        intro stale
        cases stale with
        | true => trivial
        | false =>
          cases outcome with
          | current torrent => trivial
          | updated previous torrent rewritten =>
            exact ⟨announces_of_updated ours retargeted, fun _ => trivial⟩

variable (seeder : Seeder)

theorem storeAdopted_files {rewritten : TorrentFile}
    (announces : rewritten.Announces allowed) (infoHash actual : String)
    (upstream : List String) :
    (seeder.storeAdopted infoHash rewritten actual upstream).Only
      (Call.Files allowed resets) := by
  unfold storeAdopted
  split
  · exact ⟨announces, fun _ => Only.proceed _ fun _ => trivial⟩
  · trivial

/-- What is adopted is filed rewritten, unless it is the client's own copy
and its first URL is already ours. -/
theorem adoptBytes_files {infoHash : String} {fromCache : Bool}
    {bytes : TorrentFile} (ours : ∀ url ∈ announce.tiers, allowed url)
    (verbatim : fromCache = false → ∀ torrent, bytes = .encoded torrent →
      torrent.announce = some announce.primary →
        bytes.Announces allowed) :
    (seeder.adoptBytes infoHash announce fromCache bytes).Only
      (Call.Files allowed resets) := by
  unfold adoptBytes
  dsimp only
  cases retargeted : retargetAnnounce bytes announce with
  | error reason => trivial
  | ok outcome =>
    cases outcome with
    | current torrent =>
      obtain ⟨rfl, ours⟩ := eq_encode_of_current retargeted
      cases fromCache with
      | true => trivial
      | false =>
        exact seeder.storeAdopted_files (verbatim rfl torrent rfl ours)
          ..
    | updated previous torrent rewritten =>
      exact seeder.storeAdopted_files (announces_of_updated ours retargeted) ..

theorem keepFriendTorrent_files (ours : ∀ url ∈ announce.tiers, allowed url)
    (peerId : Nat) (bytes : TorrentFile) (torrent : Torrent) :
    (seeder.keepFriendTorrent announce peerId bytes torrent).Only
      (Call.Files allowed resets) := by
  unfold keepFriendTorrent
  dsimp only
  cases rewrote : rewriteAnnounce bytes announce with
  | error reason => trivial
  | ok cached =>
    exact ⟨announces_of_rewriteAnnounce ours rewrote,
      fun _ => Only.proceed _ fun _ => Only.proceed _ fun _ => trivial⟩

theorem fetchFromFriend_files (ours : ∀ url ∈ announce.tiers, allowed url)
    (paths : ResolvedPaths) (peerId : Nat) (entry : CatalogEntry) :
    (seeder.fetchFromFriend paths announce peerId entry).Only
      (Call.Files allowed resets) := by
  refine ⟨trivial, fun response => ?_⟩
  apply Only.proceed
  intro response
  apply Only.proceed
  rintro ⟨bytes, torrent⟩
  dsimp only
  split
  · trivial
  · split
    · trivial
    · refine ⟨trivial, fun verified => ?_⟩
      apply Only.proceed
      intro verified
      cases verified with
      | false => trivial
      | true => exact seeder.keepFriendTorrent_files ours ..

theorem fetchFromFriends_files (ours : ∀ url ∈ announce.tiers, allowed url)
    (paths : ResolvedPaths) (entries : List (Nat × CatalogEntry)) :
    (seeder.fetchFromFriends paths announce entries).Only
      (Call.Files allowed resets) := by
  induction entries with
  | nil => trivial
  | cons entry entries ih =>
    apply (seeder.fetchFromFriend_files ours ..).bind
    intro found
    split
    · trivial
    · exact ih
    · exact ih

theorem sidecarsFor_files (paths : ResolvedPaths)
    (rootName : Option String) :
    (seeder.sidecarsFor paths rootName).Only (Call.Files allowed resets) := by
  unfold sidecarsFor
  split
  · exact ⟨trivial, fun _ => trivial⟩
  · trivial

/-- Where everything may be filed, so may what `build` and `adopt` file. -/
theorem fileAdopted_files (anywhere : ∀ url, allowed url) (infoHash : String)
    (announce : AnnounceSet) :
    (seeder.fileAdopted infoHash announce).Only
      (Call.Files allowed resets) := by
  have adopts : ∀ fromCache bytes,
      (seeder.adoptBytes infoHash announce fromCache bytes).Only
        (Call.Files allowed resets) := fun _ _ =>
    seeder.adoptBytes_files (fun url _ => anywhere url) fun _ _ _ _ url _ =>
      anywhere url
  refine ⟨trivial, fun read => Only.proceed _ fun cached => ?_⟩
  cases cached with
  | some data => exact adopts true data
  | none =>
    refine ⟨trivial, fun exported => Only.proceed _ fun exported => ?_⟩
    cases exported with
    | none => trivial
    | some data => exact adopts false data

theorem build_files (anywhere : ∀ url, allowed url) (paths : ResolvedPaths)
    (announce : AnnounceSet) (media : Option MediaMeta) :
    (seeder.build paths announce media).Only (Call.Files allowed resets) := by
  apply (seeder.sidecarsFor_files ..).bind
  intro sidecars
  have created : ∀ rootName,
      (seeder.createTorrent paths announce media rootName sidecars).Only
        (Call.Files allowed resets) := by
    intro rootName
    unfold createTorrent
    dsimp only
    split <;> exact ⟨trivial, fun _ => trivial⟩
  apply (created _).bind
  intro built
  exact Only.proceed _ fun _ => ⟨fun url _ => anywhere url, fun _ => trivial⟩

theorem acquire_files (anywhere : ∀ url, allowed url) (paths : ResolvedPaths)
    (announce : AnnounceSet) (known : Option String)
    (media : Option MediaMeta) (friends : FriendTorrents) :
    (seeder.acquire paths announce known media friends).Only
      (Call.Files allowed resets) := by
  apply (reuseCached_files (fun url _ => anywhere url) ..).bind
  intro reused
  cases reused with
  | some cached =>
    dsimp only
    split
    · exact Only.proceed _ fun _ => trivial
    · trivial
  | none =>
    apply (seeder.fetchFromFriends_files (fun url _ => anywhere url) ..).bind
    intro fetched
    cases fetched with
    | some found => trivial
    | none =>
      exact (seeder.build_files anywhere ..).attempt fun _ => trivial

theorem handOver_files (paths : ResolvedPaths)
    (acquired : Acquired) :
    (seeder.handOver paths acquired).Only (Call.Files allowed resets) := by
  apply Only.proceed
  intro savePath
  exact ⟨trivial, fun _ => Only.proceed _ fun _ => trivial⟩

theorem seed_files (anywhere : ∀ url, allowed url) (paths : ResolvedPaths)
    (announce : AnnounceSet) (torrents : List TorrentSummary)
    (known : Option String) (media : Option MediaMeta)
    (friends : FriendTorrents) :
    (seeder.seed paths announce torrents known media friends).Only
      (Call.Files allowed resets) := by
  have adopts : ∀ infoHash,
      (seeder.adopt infoHash announce).Only (Call.Files allowed resets) :=
    fun infoHash => ⟨trivial, fun _ => Only.proceed _ fun _ =>
      seeder.fileAdopted_files anywhere infoHash announce⟩
  apply (findExisting_files ..).bind
  intro existing
  cases existing with
  | some existing => exact (adopts existing).attempt fun _ => trivial
  | none =>
    dsimp only
    split
    · exact (adopts _).attempt fun _ => trivial
    · exact (seeder.acquire_files anywhere ..).attempt fun _ =>
        seeder.handOver_files ..

theorem refreshAnnounce_files (ours : ∀ url ∈ announce.tiers, allowed url)
    (infoHash : String) (upstream : List String) :
    (seeder.refreshAnnounce infoHash announce upstream).Only
      (Call.Files allowed True) := by
  refine ⟨trivial, fun confirmed => ?_⟩
  cases confirmed with
  | true => trivial
  | false =>
    refine ⟨trivial, fun read => ?_⟩
    apply Only.proceed
    intro read
    cases read with
    | none => trivial
    | some data =>
      dsimp only
      cases retargeted : retargetAnnounce data announce with
      | error reason => trivial
      | ok outcome =>
        cases outcome with
        | current torrent => exact ⟨trivial, fun _ => trivial⟩
        | updated previous torrent rewritten =>
          refine ⟨trivial, fun _ => Only.proceed _ fun _ => ?_⟩
          refine ⟨announces_of_updated ours retargeted, fun _ => ?_⟩
          exact Only.proceed _ fun _ => ⟨trivial, fun _ => trivial⟩

end Seeder

namespace Sync

open Process

/-- A URL of an announce set this instance had. -/
def Ours (past : List Event) (url : String) : Prop :=
  ∃ announce, (⟨0, .announceSet, .ok announce⟩ : Event) ∈ past ∧
    url ∈ announce.tiers

/-- Whatever was filed announces to sets of ours alone. -/
def FiledOurs (past : List Event) : Prop :=
  ∀ thread key hash data answer,
    (⟨thread, .seeder key (.writeCached hash data), answer⟩ : Event) ∈ past →
      data.Announces (Ours past)

/-- What the factory builds announces to the set it was given. -/
def BuildsFor : Process.Condition Nat World Call Answer :=
  fun _ event =>
    (∀ thread key request built,
      event = ⟨thread, .seeder key (.create request), .finished built⟩ →
        ∃ torrent : Torrent,
          built.data = (torrent.announcingTo request.announce).encode) ∧
    ∀ thread key request built,
      event =
          ⟨thread, .seeder key (.createWithSidecars request),
            .finished built⟩ →
        ∃ torrent : Torrent,
          built.data = (torrent.announcingTo request.announce).encode

/-- The syncer's last call found nothing cached under the hash. -/
def Missed (past : List Event) (hash : String) : Prop :=
  ∃ earlier key later,
    past = earlier ++ ⟨0, .seeder key (.readCached hash), .ok none⟩ :: later ∧
      ∀ event ∈ later, event.thread ≠ 0

/-- A torrent exported because nothing is cached for it, whose first URL is
already the one to announce to, has no URL that is not ours. -/
def ExportsOurs : Process.Condition Nat World Call Answer :=
  fun moment event =>
    ∀ key hash torrent announce,
      event =
          ⟨0, .seeder key (.export_ hash), .ok (some (.encoded torrent))⟩ →
        Missed moment.past hash →
          Heard moment.past .announceSet (.ok announce) →
            torrent.announce = some announce.primary →
              torrent.encode.Announces (Ours moment.past)

variable {past : List Event} {event : Event} {moment : Moment}

variable {url : String} {after before : Moment} {request : Call}
  {answer : Answer request} {thread : Nat}

theorem Ours.grow {more : List Event} (ours : Ours past url) :
    Ours (past ++ more) url := by
  obtain ⟨announce, member, among⟩ := ours
  exact ⟨announce, List.mem_append_left _ member, among⟩

theorem ours_of_heard {announce : AnnounceSet}
    (heard : Heard past .announceSet (.ok announce)) :
    ∀ url ∈ announce.tiers, Ours past url :=
  fun _ member => ⟨announce, heard.mem, member⟩

/-- A further event keeps what was filed ours, as long as it files nothing
else. -/
theorem FiledOurs.append (filed : FiledOurs past)
    (files : ∀ key request, event.request = .seeder key request →
      request.Files (Ours past) True) : FiledOurs (past ++ [event]) := by
  intro thread key hash data answer member url announced
  rcases List.mem_append.mp member with old | new
  · exact (filed thread key hash data answer old url announced).grow
  · have same := List.mem_singleton.mp new
    have allowed := files key (.writeCached hash data) (same ▸ rfl)
    exact (allowed url announced).grow

/-- The rule, over the runs whose factory and exports keep to ours. -/
def filing : Protocol Nat World Call Answer where
  perform := perform
  condition moment event := BuildsFor moment event ∧ ExportsOurs moment event
  invariant moment := FiledOurs moment.past
  guarantee _ _ _ := True

/-- The request files only what is ours, if it is one of the seeder's. -/
theorem filedOurs_of_performed
    (performed : Performed filing thread before request answer after)
    (files : ∀ key inner, request = .seeder key inner →
      inner.Files (Ours before.past) True) : FiledOurs after.past := by
  rw [performed.past]
  exact FiledOurs.append performed.holds files

theorem filedOurs_of_plain (plain : ¬ request.IsAct)
    (performed : Performed filing thread before request answer after) :
    FiledOurs after.past := by
  apply filedOurs_of_performed performed
  rintro key inner rfl
  cases inner with
  | writeCached hash data => exact absurd trivial plain
  | _ => trivial

variable {key : ItemKey} {property : List Event → Prop}

theorem safe_files {α : Type} {allowed : String → Prop}
    {program : Seeder.Program α} (lasting : Lasting property)
    (only : program.Only (Seeder.Call.Files allowed True))
    (ours : ∀ past, property past → ∀ url, allowed url → Ours past url)
    (holds : property moment.past) :
    Safe filing 0 (fun _ after => property after.past)
      (Syncer.forItem key program) moment := by
  have lifted : (Syncer.forItem key program).Only fun request =>
      ∃ inner, request = .seeder key inner ∧ inner.Files allowed True :=
    only.lift fun inner files => ⟨inner, rfl, files⟩
  apply Safe.of_only lasting.unshaken.stable _ lifted holds
  rintro before request answer after ⟨inner, rfl, files⟩ held performed
  refine ⟨?_, trivial, ?_⟩
  · apply filedOurs_of_performed performed
    intro other requested same
    cases same
    cases inner with
    | writeCached hash data =>
      exact fun url announced => ours _ held url (files url announced)
    | _ => trivial
  · rw [performed.past]
    exact lasting _ _ held fun _ => id

theorem Lasting.and {other : List Event → Prop} (first : Lasting property)
    (second : Lasting other) :
    Lasting fun past => property past ∧ other past :=
  fun past event holds plain =>
    ⟨first past event holds.1 plain, second past event holds.2 plain⟩

theorem lasting_ours (allowed : String → Prop) :
    Lasting fun past => ∀ url, allowed url → Ours past url :=
  fun _ _ ours _ url member => (ours url member).grow

section Adopting

variable {seeder : Seeder} {announce : AnnounceSet} {moment : Moment}

theorem safe_seeder_call {α : Type} {request : Seeder.Call}
    {next : Seeder.Answer request → Program α} {post : α → Moment → Prop}
    (lasting : Lasting property) (plain : ¬ request.IsAct)
    (holds : property moment.past)
    (rest : ∀ before answer after, property before.past →
      property after.past →
        Performed filing 0 before (.seeder key request) answer after →
          Safe filing 0 post (next answer) after) :
    Safe filing 0 post (.call (.seeder key request) next) moment := by
  apply Safe.call lasting.unshaken.stable holds
  intro before answer after held performed
  have quiet : ¬ (Call.seeder key request).IsAct := plain
  refine ⟨filedOurs_of_plain quiet performed, trivial, ?_⟩
  exact rest before answer after held (lasting.seeder performed held)
    performed

/-- The client's own copy, filed for a torrent nothing was cached for. -/
theorem safe_export (infoHash : String) (lasting : Lasting property)
    (heard : ∀ past, property past →
      Heard past .announceSet (.ok announce))
    (holds : property moment.past) (missed : Missed moment.past infoHash) :
    Safe filing 0 (fun _ after => property after.past)
      (Syncer.forItem key (.call (.export_ infoHash) fun exported =>
        Prog.proceed (context ("exporting " ++ infoHash ++ " from " ++
            seeder.kind.asStr) exported) fun
          | none => .done (.error (seeder.cannotExport infoHash))
          | some data => seeder.adoptBytes infoHash announce false data))
      moment := by
  have stable : filing.Stable 0 fun moment =>
      property moment.past ∧ Missed moment.past infoHash := by
    rintro before after ⟨held, earlier, other, later, whole, quiet⟩ others
    refine ⟨lasting.unshaken.stable before after held others, ?_⟩
    obtain ⟨thread, different, -, -, request, answer, performed⟩ := others
    refine ⟨earlier, other, later ++ [⟨thread, request, answer⟩], ?_, ?_⟩
    · rw [performed.past, whole]
      simp
    · intro event member
      rcases List.mem_append.mp member with old | new
      · exact quiet event old
      · rw [List.mem_singleton.mp new]
        exact different
  apply Safe.call stable ⟨holds, missed⟩
  rintro before answer after ⟨held, missed⟩ performed
  refine ⟨filedOurs_of_plain id performed, trivial, ?_⟩
  have later := lasting.seeder performed held
  rw [Prog.lift_proceed]
  apply Safe.proceed
  · exact fun _ _ => later
  · intro exported answered
    cases exported with
    | none => exact later
    | some data =>
      obtain rfl : answer = .ok (some data) := eq_ok_of_context answered
      have ours : ∀ url, Ours before.past url → Ours after.past url := by
        intro url ours
        rw [performed.past]
        exact ours.grow
      refine (safe_files (lasting.and (lasting_ours (Ours before.past)))
        (seeder.adoptBytes_files (ours_of_heard (heard _ held)) ?_)
        (fun _ both => both.2) ⟨later, ours⟩).mono fun _ _ both => both.1
      rintro - torrent rfl first
      exact performed.meets.2 key infoHash torrent announce rfl missed
        (heard _ held) first

theorem safe_fileAdopted (infoHash : String) (lasting : Lasting property)
    (heard : ∀ past, property past →
      Heard past .announceSet (.ok announce))
    (holds : property moment.past) :
    Safe filing 0 (fun _ after => property after.past)
      (Syncer.forItem key (seeder.fileAdopted infoHash announce))
      moment := by
  apply safe_seeder_call lasting id holds
  intro before read after held later performed
  rw [Prog.lift_proceed]
  apply Safe.proceed
  · exact fun _ _ => later
  · intro cached answered
    obtain rfl : read = .ok cached := eq_ok_of_context answered
    cases cached with
    | some data =>
      exact safe_files lasting
        (seeder.adoptBytes_files (fun _ member => member)
          fun impossible => by cases impossible)
        (fun past holds => ours_of_heard (heard past holds)) later
    | none =>
      apply safe_export infoHash lasting heard later
      refine ⟨before.past, key, [], ?_, fun _ member =>
        absurd member List.not_mem_nil⟩
      exact performed.past

theorem safe_adopt_filing (infoHash : String) (lasting : Lasting property)
    (heard : ∀ past, property past →
      Heard past .announceSet (.ok announce))
    (holds : property moment.past) :
    Safe filing 0 (fun _ after => property after.past)
      (Syncer.forItem key (seeder.adopt infoHash announce)) moment := by
  apply safe_seeder_call lasting id holds
  intro before added after held later performed
  rw [Prog.lift_proceed]
  apply Safe.proceed
  · exact fun _ _ => later
  · exact fun _ _ => safe_fileAdopted infoHash lasting heard later

theorem safe_build (paths : ResolvedPaths) (media : Option MediaMeta)
    (lasting : Lasting property)
    (heard : ∀ past, property past →
      Heard past .announceSet (.ok announce))
    (holds : property moment.past) :
    Safe filing 0 (fun _ after => property after.past)
      (Syncer.forItem key (seeder.build paths announce media)) moment := by
  have ours : ∀ past, property past → ∀ url, url ∈ announce.tiers →
      Ours past url := fun past holds => ours_of_heard (heard past holds)
  -- Once built, a torrent is filed under its own announce set.
  have filed : ∀ (built : Blocking BuiltTorrent) (after : Moment),
      (∀ result, built = .finished result → ∃ torrent : Torrent,
        result.data = (torrent.announcingTo announce).encode) →
      property after.past →
        Safe filing 0 (fun _ after => property after.past)
          (Syncer.forItem key (Prog.proceed
            (built.result "torrent build task panicked"
              ("building a torrent for " ++ paths.sharerr)) fun built =>
            .call (.writeCached built.infoHash built.data) fun _ =>
              .done (.ok built))) after := by
    intro built after announces later
    refine safe_files lasting ?_ ours later
    cases built with
    | finished result =>
      obtain ⟨torrent, same⟩ := announces result rfl
      refine ⟨?_, fun _ => trivial⟩
      rw [same]
      exact torrent.announcingTo_announces fun _ member => member
    | _ => trivial
  unfold Seeder.build
  dsimp only
  rw [Syncer.forItem, Prog.lift_bind]
  apply (safe_files lasting (seeder.sidecarsFor_files ..) ours holds).bind
  intro sidecars moment holds
  rw [Prog.lift_bind]
  have created : Safe filing 0
      (fun built after => (∀ result, built = .finished result →
        ∃ torrent : Torrent,
          result.data = (torrent.announcingTo announce).encode) ∧
            property after.past)
      (Syncer.forItem key (seeder.createTorrent paths announce media
        ((Rust.Path.parent paths.qbit).bind Rust.Path.fileName) sidecars))
      moment := by
    unfold Seeder.createTorrent
    dsimp only
    split
    · apply safe_seeder_call lasting id holds
      intro before answer after _ later performed
      refine ⟨?_, later⟩
      rintro result rfl
      exact performed.meets.1.2 0 key _ result rfl
    · apply safe_seeder_call lasting id holds
      intro before answer after _ later performed
      refine ⟨?_, later⟩
      rintro result rfl
      exact performed.meets.1.1 0 key _ result rfl
  apply created.bind
  rintro built moment ⟨announces, holds⟩
  exact filed built moment announces holds

theorem safe_acquire (paths : ResolvedPaths) (known : Option String)
    (media : Option MediaMeta) (friends : FriendTorrents)
    (lasting : Lasting property)
    (heard : ∀ past, property past →
      Heard past .announceSet (.ok announce))
    (holds : property moment.past) :
    Safe filing 0 (fun _ after => property after.past)
      (Syncer.forItem key (seeder.acquire paths announce known media friends))
      moment := by
  have ours : ∀ past, property past → ∀ url, url ∈ announce.tiers →
      Ours past url := fun past holds => ours_of_heard (heard past holds)
  rw [Syncer.forItem, Seeder.acquire, Prog.lift_bind]
  apply (safe_files lasting
    (Seeder.reuseCached_files (fun _ member => member) ..) ours holds).bind
  intro reused moment holds
  cases reused with
  | some cached =>
    dsimp only
    split
    · rw [Prog.lift_proceed]
      exact Safe.proceed (fun _ _ => holds) fun _ _ => holds
    · exact holds
  | none =>
    dsimp only
    rw [Prog.lift_bind]
    apply (safe_files lasting
      (seeder.fetchFromFriends_files (fun _ member => member) ..) ours
        holds).bind
    intro fetched moment holds
    cases fetched with
    | some found => exact holds
    | none =>
      dsimp only
      rw [Prog.lift_attempt]
      apply (safe_build paths media lasting heard holds).bind
      intro built moment holds
      exact Safe.proceed (fun _ _ => holds) fun _ _ => holds

theorem safe_seed_filing (paths : ResolvedPaths)
    (torrents : List TorrentSummary) (known : Option String)
    (media : Option MediaMeta) (friends : FriendTorrents)
    (lasting : Lasting property)
    (heard : ∀ past, property past →
      Heard past .announceSet (.ok announce))
    (holds : property moment.past) :
    Safe filing 0 (fun _ after => property after.past)
      (Syncer.forItem key (seeder.seed paths announce torrents known media
        friends)) moment := by
  have ours : ∀ past, property past → ∀ url, url ∈ announce.tiers →
      Ours past url := fun past holds => ours_of_heard (heard past holds)
  refine safe_seed_keeping (fun _ _ => True)
    (safe_files lasting (Seeder.findExisting_files ..) ours holds)
    (fun infoHash _ => safe_adopt_filing infoHash lasting heard) ?_ ?_
  · intro moment holds
    exact (safe_acquire paths known media friends lasting heard holds).mono
      fun _ _ kept => ⟨kept, fun _ _ => trivial⟩
  · intro acquired moment holds _
    exact safe_files lasting (seeder.handOver_files ..) ours holds

end Adopting

theorem keepsPlain_filing : KeepsPlain filing where
  guaranteed := fun _ _ _ => trivial
  kept := filedOurs_of_plain

theorem acts_filing (syncer : Syncer) : Acts syncer filing where
  toKeepsPlain := keepsPlain_filing
  confirms := by
    intro pass readings items item known hash reported moment told _ _
    apply keepsPlain_filing.safe_confirmLive (lasting_told _ _ _) _ told
    intro upstream moment told
    exact safe_files (lasting_told _ _ _)
      (syncer.seeder.refreshAnnounce_files (fun _ member => member) ..)
      (fun _ told => ours_of_heard told.announce) told
  seeds := by
    intro pass readings items item media paths entries moment told _ _
    exact safe_seed_filing paths pass.torrents _ media _ (lasting_told _ _ _)
      (fun _ told => told.announce) told

/-- In every run whose factory announces where it is told to, and in which no
torrent adopted with our URL already first has other URLs behind it, no file
of the torrent directory announces anywhere but to us. -/
theorem filed_is_ours (syncer : Syncer) (work : List (Job × Nat))
    (visitors : Nat → Visitor) (world : World) (events : List Event)
    (final : Pool)
    (run : Process.Run perform
      (fun moment event => BuildsFor moment event ∧ ExportsOurs moment event)
      (start syncer work visitors world) events final) :
    FiledOurs events :=
  (acts_filing syncer).covered.of_run
    (fun _ _ _ _ _ member => absurd member List.not_mem_nil) run

/-- The announce URLs an event makes ours. -/
def announced : Event → List String
  | ⟨0, .announceSet, .ok announce⟩ => announce.tiers
  | _ => []

/-- The announce URLs an event files. -/
def filed : Event → List String
  | ⟨_, .seeder _ (.writeCached _ data), _⟩ => data.announceUrls
  | _ => []

theorem ours_iff :
    Ours past url ↔ url ∈ past.flatMap announced := by
  constructor
  · rintro ⟨announce, member, among⟩
    exact List.mem_flatMap.mpr ⟨_, member, among⟩
  · intro member
    obtain ⟨event, among, found⟩ := List.mem_flatMap.mp member
    unfold announced at found
    split at found
    · exact ⟨_, among, found⟩
    · cases found

theorem announced_of_filedOurs (ours : FiledOurs past) :
    ∀ url ∈ past.flatMap filed, url ∈ past.flatMap announced := by
  intro url member
  obtain ⟨event, among, found⟩ := List.mem_flatMap.mp member
  unfold filed at found
  split at found
  · exact ours_iff.mp (ours _ _ _ _ _ among url found)
  · cases found

/-- The trackers the client lists after an event: `addTrackers` puts ours
ahead of what is there, `setTrackers` replaces the list. -/
def relisted (trackers : String → List String) :
    Event → String → List String
  | ⟨_, .seeder _ (.addTrackers hash urls), .ok _⟩ =>
    Function.update trackers hash
      (urls ++ (trackers hash).filter (· ∉ urls))
  | ⟨_, .seeder _ (.setTrackers hash urls), .ok _⟩ =>
    Function.update trackers hash urls
  | _ => trackers

/-- What the client exports lists the torrent's trackers as they are. -/
def ExportsListed (trackers : String → List String) :
    Process.Condition Nat World Call Answer :=
  fun moment event =>
    ∀ thread key hash torrent,
      event =
          ⟨thread, .seeder key (.export_ hash),
            .ok (some (.encoded torrent))⟩ →
        torrent.announce = (moment.past.foldl relisted trackers hash).head? ∧
          torrent.announceTiers =
            (moment.past.foldl relisted trackers hash).map fun url => [url]

/-- Whether an event is the building of a torrent. -/
def builds : Event → Bool
  | ⟨_, .seeder _ (.create _), .finished _⟩ => true
  | ⟨_, .seeder _ (.createWithSidecars _), .finished _⟩ => true
  | _ => false

theorem buildsFor_of_not_builds (none : builds event = false) :
    BuildsFor moment event := by
  constructor
  · rintro thread key request built rfl
    cases none
  · rintro thread key request built rfl
    cases none

/-- The torrent of an exporting event. -/
def exports : Event → Option (String × Torrent)
  | ⟨_, .seeder _ (.export_ hash), .ok (some (.encoded torrent))⟩ =>
    some (hash, torrent)
  | _ => none

/-- The film as the operator already seeds it. -/
def operatorTorrent : TorrentSummary where
  hash := filmHash
  name := "alphaville.mkv"
  savePath := "/films"
  contentPath := "/films/alphaville.mkv"
  category := ""
  tags := []
  isSeeding := true
  isStopped := false
  ratio := none
  ratioLimit := none
  uploadLimitKib := none

def operatorTrackers : List String := ["http://club/0123456789/announce"]

/-- A library of one film the client already seeds, whose export lists these
trackers. -/
def adoptedFilm (trackers : List String) : Environment :=
  { Environment.small (fun _ => none) ⟨[film 1], true, []⟩ valid_film with
    cached := fun _ _ => .ok none
    exported := fun _ _ => some (Torrent.encode
      { filmTorrent with
        announceList := some (trackers.map fun url => [url]) }) }

/-- One pass over that library. -/
def adoptedPass (trackers : List String) : List Event :=
  (smallSyncer.jobs [(.run false, 100)]).told (adoptedFilm trackers).respond 0 0
    (.fresh [operatorTorrent])

/-- Nothing is built, and what is exported is listed. -/
def exportsListed (trackers : String → List String) (moment : Moment)
    (event : Event) : Bool :=
  !builds event && (exports event).all fun (hash, torrent) =>
    let current := moment.past.foldl relisted trackers hash
    torrent.announce = current.head? &&
      torrent.announceTiers = current.map fun url => [url]

theorem exportsListed_of_check {trackers : String → List String}
    (checked : exportsListed trackers moment event = true) :
    BuildsFor moment event ∧ ExportsListed trackers moment event := by
  obtain ⟨noBuild, listed⟩ := Bool.and_eq_true_iff.mp checked
  refine ⟨buildsFor_of_not_builds (by simpa using noBuild), ?_⟩
  rintro thread key hash torrent rfl
  simpa [exports] using listed

/-- The pass adopts the operator's torrent, and files it with the operator's
tracker behind ours. -/
theorem operators_tracker_filed :
    ∃ events final, Process.Run perform
        (fun moment event => BuildsFor moment event ∧
          ExportsListed (fun _ => operatorTrackers) moment event)
        (start smallSyncer [(.run false, 100)] nobody
          (.fresh [operatorTorrent])) events final ∧
      ¬ FiledOurs events := by
  have replayed : (Process.replay perform
      (exportsListed fun _ => operatorTrackers)
      [] (start smallSyncer [(.run false, 100)] nobody
        (.fresh [operatorTorrent]))
      (adoptedPass ("http://home/announce" :: operatorTrackers))).map
        (fun _ => ()) = some () := by decide +kernel
  obtain ⟨final, run, -⟩ := Process.Run.exists_of_replay
    (fun _ _ checked => exportsListed_of_check checked) replayed
  refine ⟨_, final, run, fun ours => ?_⟩
  have among := announced_of_filedOurs ours
    "http://club/0123456789/announce" (by decide +kernel)
  revert among
  decide +kernel

/-- Nothing is built, and what is exported is ours. -/
def exportsOurs (moment : Moment) (event : Event) : Bool :=
  !builds event && (exports event).all fun (_, torrent) =>
    torrent.announceUrls.all fun url => url ∈ moment.past.flatMap announced

theorem exportsOurs_of_check (checked : exportsOurs moment event = true) :
    BuildsFor moment event ∧ ExportsOurs moment event := by
  obtain ⟨noBuild, listed⟩ := Bool.and_eq_true_iff.mp checked
  refine ⟨buildsFor_of_not_builds (by simpa using noBuild), ?_⟩
  rintro key hash torrent announce rfl _ _ _ url member
  simp only [exports, Option.all_some, List.all_eq_true, decide_eq_true_eq]
    at listed
  exact ours_iff.mpr (listed url member)

/-- Adopted without a tracker of its own, the film is filed with ours. -/
theorem plain_film_filed :
    ∃ events final, Process.Run perform
        (fun moment event => BuildsFor moment event ∧
          ExportsOurs moment event)
        (start smallSyncer [(.run false, 100)] nobody
          (.fresh [operatorTorrent])) events final ∧
      FiledOurs events ∧
        "http://home/announce" ∈ events.flatMap filed := by
  have replayed : (Process.replay perform exportsOurs []
      (start smallSyncer [(.run false, 100)] nobody
        (.fresh [operatorTorrent]))
      (adoptedPass ["http://home/announce"])).map
        (fun _ => ()) = some () := by decide +kernel
  obtain ⟨final, run, -⟩ := Process.Run.exists_of_replay
    (fun _ _ checked => exportsOurs_of_check checked) replayed
  exact ⟨_, final, run, filed_is_ours _ _ _ _ _ _ run, by decide +kernel⟩

end Sync

end Sharerr
