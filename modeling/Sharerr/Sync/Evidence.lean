import Sharerr.Process.Endings
import Sharerr.Sync.Catalog
import Sharerr.Sync.Seed

/-!
# What says that a torrent is about a file

`Seeder::seed` comes to an info hash in four ways.  The torrent it finds in
the client contains the file, the one it fetches is compared with the file,
the one it builds is built from it, and the one it has cached was come to
before.  A torrent a friend's catalog names is adopted on the catalog's word.
-/

namespace Sharerr

namespace Seeder

open Process (Prog Ends Event)

/-- What one call is made with, its paths apart: the client's torrents and the
files they have, the friends' catalogs and who of the friends is active, and
the file as discovered. -/
structure Input where
  announce : AnnounceSet
  torrents : List TorrentSummary
  files : String → List TorrentFileEntry
  catalogs : PeerCatalog
  active : Nat → Bool
  spec : MediaSpec
  ids : ExternalIds
  size : Nat
  media : Option MediaMeta
  joined : Option ItemOrigin

def Input.friends (input : Input) : FriendTorrents where
  matches_ :=
    input.catalogs.catalogMatches input.active input.spec input.ids input.size
  joined := input.joined

/-- A torrent of the client that contains the file at `target`. -/
def Input.Covers (input : Input) (target : String) (torrent : TorrentSummary) :
    Prop :=
  matchesContentPath torrent target = true ∨
    containsFile torrent.savePath (input.files torrent.hash) target = true

/-- Files are listed as they are, or not at all; every other answer may be
anything. -/
def answers (files : String → List TorrentFileEntry) :
    Process.Perform Unit Unit Call Answer
  | _, _, .files hash, .ok listed =>
    if listed = files hash then some () else none
  | _, _, _, _ => some ()

abbrev Trace := List (Event Unit Call Answer)

variable (seeder : Seeder) (paths : ResolvedPaths)

/-- A call of `seed` with the hash recorded for the file, and how it went. -/
structure Seeded where
  input : Input
  known : Option String
  trace : Trace
  result : Except String SeedOutcome

def Seeded.Ran (seeded : Seeded) : Prop :=
  Ends (answers seeded.input.files) () ()
    (seeder.seed paths seeded.input.announce seeded.input.torrents seeded.known
      seeded.input.media seeded.input.friends)
    seeded.trace () seeded.result

def Seeded.Chose (seeded : Seeded) (infoHash : String) : Prop :=
  ∃ outcome, seeded.result = .ok outcome ∧ outcome.infoHash = infoHash

def builtFrom (path infoHash : String) : Event Unit Call Answer → Prop
  | ⟨_, .create request, .finished built⟩ =>
    request.path = path ∧ built.infoHash = infoHash
  | ⟨_, .createWithSidecars request, .finished built⟩ =>
    request.path = path ∧ built.infoHash = infoHash
  | _ => False

def verifiedAgainst (path infoHash : String) : Event Unit Call Answer → Prop
  | ⟨_, .verifySingleFile against torrent, .finished true⟩ =>
    against = path ∧ torrent.info.infoHash = infoHash
  | _ => False

/-- What a call has to show for the hash it chose. -/
inductive Seeded.Shows (seeded : Seeded) (infoHash : String) : Prop where
  | contained (torrent : TorrentSummary)
      (listed : torrent ∈ seeded.input.torrents)
      (named : SameHash torrent.hash infoHash)
      (covers : seeded.input.Covers paths.qbit torrent)
  | verified (event : Event Unit Call Answer) (made : event ∈ seeded.trace)
      (about : verifiedAgainst paths.sharerr infoHash event)
  | built (event : Event Unit Call Answer) (made : event ∈ seeded.trace)
      (about : builtFrom paths.sharerr infoHash event)

/-- The calls made for one file over time; the hash recorded for it is one
chosen before. -/
inductive Life : List Seeded → Prop where
  | start : Life []
  | more {past : List Seeded} {next : Seeded} (lived : Life past)
      (ran : next.Ran seeder paths)
      (recorded : ∀ hash, next.known = some hash →
        ∃ earlier ∈ past, earlier.Chose hash) :
      Life (past ++ [next])

/-- Whenever a hash is chosen, that call or one before that chose it had
something to show for it. -/
def Backed (life : List Seeded) : Prop :=
  ∀ past seeded later infoHash, life = past ++ seeded :: later →
    seeded.Chose infoHash → ∃ earlier ∈ past ++ [seeded],
      earlier.Chose infoHash ∧ earlier.Shows paths infoHash

/-- A torrent of the client that a catalog names as the file's contains the
file, if it comes to that. -/
def Input.Related (input : Input) (target : String) : Prop :=
  (∃ torrent ∈ input.torrents, matchesContentPath torrent target = true) ∨
    ∀ peer entry, input.friends.held input.torrents = some (peer, entry) →
      ∃ torrent ∈ input.torrents, SameHash torrent.hash entry.infoHash ∧
        input.Covers target torrent

section Parts

variable {files : String → List TorrentFileEntry} {trace : Trace}
  {seeder : Seeder} {paths : ResolvedPaths}

variable {hash : String} {announce : AnnounceSet} {data : TorrentFile}
  {origin : ItemOrigin} {media : Option MediaMeta}

theorem files_admitted {listed : List TorrentFileEntry} {middle : Unit}
    (performed : answers files () () (.files hash) (.ok listed) = some middle) :
    listed = files hash := by
  simp only [answers] at performed
  split at performed
  · assumption
  · cases performed

variable {target : String} {known : Option String} {peerId : Nat}
  {built : BuiltTorrent} {acquired : Acquired}

theorem searchFiles_covers {torrents : List TorrentSummary}
    (ends : Ends (answers files) () () (searchFiles target torrents) trace ()
      (some hash)) :
    ∃ torrent ∈ torrents, torrent.hash = hash ∧
      containsFile torrent.savePath (files torrent.hash) target = true := by
  induction torrents generalizing trace with
  | nil =>
    obtain ⟨-, -, absent⟩ := Ends.done_iff.mp ends
    cases absent
  | cons torrent torrents ih =>
    obtain ⟨answer, middle, later, -, performed, rest⟩ :=
      Ends.call_iff.mp ends
    cases answer with
    | error reason =>
      obtain ⟨found, among, covers⟩ := ih rest
      exact ⟨found, List.mem_cons_of_mem _ among, covers⟩
    | ok listed =>
      have same := files_admitted performed
      dsimp only at rest
      split at rest
      · rename_i contains
        obtain ⟨-, -, named⟩ := Ends.done_iff.mp rest
        cases named
        exact ⟨torrent, List.mem_cons_self, rfl, same ▸ contains⟩
      · obtain ⟨found, among, covers⟩ := ih rest
        exact ⟨found, List.mem_cons_of_mem _ among, covers⟩

theorem findExisting_covers {input : Input}
    (ends : Ends (answers input.files) () ()
      (findExisting input.torrents target) trace () (some hash)) :
    ∃ torrent ∈ input.torrents, torrent.hash = hash ∧
      input.Covers target torrent := by
  unfold findExisting at ends
  split at ends
  · rename_i found matched
    obtain ⟨-, -, named⟩ := Ends.done_iff.mp ends
    cases named
    exact ⟨found, List.mem_of_find?_eq_some matched, rfl,
      .inl (by simpa using List.find?_some matched)⟩
  · obtain ⟨torrent, among, named, contains⟩ := searchFiles_covers ends
    exact ⟨torrent, List.mem_of_mem_filter among, named, .inr contains⟩

theorem reuseCached_known
    (ends : Ends (answers files) () () (reuseCached known announce paths) trace
      () (some (hash, data))) : known = some hash := by
  unfold reuseCached at ends
  cases known with
  | none => cases (Ends.done_iff.mp ends).2.2
  | some recorded =>
    obtain ⟨answer, _, _, -, -, rest⟩ := Ends.call_iff.mp ends
    cases answer with
    | error reason => cases (Ends.done_iff.mp rest).2.2
    | ok cached =>
      cases cached with
      | none => cases (Ends.done_iff.mp rest).2.2
      | some bytes =>
        dsimp only at rest
        split at rest
        · cases (Ends.done_iff.mp rest).2.2
        · obtain ⟨_, _, _, stale, -, -, rest⟩ := Ends.bind_iff.mp rest
          cases stale with
          | true => cases (Ends.done_iff.mp rest).2.2
          | false =>
            dsimp only at rest
            split at rest
            · cases (Ends.done_iff.mp rest).2.2
              rfl
            · obtain ⟨_, _, _, -, -, rest⟩ := Ends.call_iff.mp rest
              cases (Ends.done_iff.mp rest).2.2
              rfl

theorem keepFriendTorrent_names {bytes : TorrentFile} {torrent : Torrent}
    (ends : Ends (answers files) () ()
      (seeder.keepFriendTorrent announce peerId bytes torrent) trace ()
      (.ok (some (hash, data, origin)))) : torrent.info.infoHash = hash := by
  unfold keepFriendTorrent at ends
  obtain ⟨cached, -, ends⟩ := Ends.proceed_ok ends
  obtain ⟨wrote, _, _, -, -, ends⟩ := Ends.call_iff.mp ends
  obtain ⟨_, -, ends⟩ := Ends.proceed_ok ends
  obtain ⟨handed, -, ends⟩ := Ends.proceed_ok ends
  cases (Ends.done_iff.mp ends).2.2
  rfl

theorem fetchFromFriend_verified {entry : CatalogEntry}
    (ends : Ends (answers files) () ()
      (seeder.fetchFromFriend paths announce peerId entry) trace ()
      (.ok (some (hash, data, origin)))) :
    ∃ event ∈ trace, verifiedAgainst paths.sharerr hash event := by
  unfold fetchFromFriend at ends
  obtain ⟨response, _, fetched, rfl, -, ends⟩ := Ends.call_iff.mp ends
  obtain ⟨response, -, ends⟩ := Ends.proceed_ok ends
  obtain ⟨⟨bytes, torrent⟩, -, ends⟩ := Ends.proceed_ok ends
  dsimp only at ends
  split at ends
  · cases (Ends.done_iff.mp ends).2.2
  · split at ends
    · cases (Ends.done_iff.mp ends).2.2
    · obtain ⟨verified, _, checked, rfl, -, ends⟩ := Ends.call_iff.mp ends
      obtain ⟨verdict, finished, ends⟩ := Ends.proceed_ok ends
      cases Blocking.eq_finished_of_result finished
      cases verdict with
      | false => cases (Ends.done_iff.mp ends).2.2
      | true =>
        exact ⟨_, List.mem_cons_of_mem _ List.mem_cons_self, rfl,
          keepFriendTorrent_names ends⟩

theorem fetchFromFriends_verified {entries : List (Nat × CatalogEntry)}
    (ends : Ends (answers files) () ()
      (seeder.fetchFromFriends paths announce entries) trace ()
      (some (hash, data, origin))) :
    ∃ event ∈ trace, verifiedAgainst paths.sharerr hash event := by
  induction entries generalizing trace with
  | nil => cases (Ends.done_iff.mp ends).2.2
  | cons pair entries ih =>
    obtain ⟨first, second, _, fetched, rfl, one, rest⟩ := Ends.bind_iff.mp ends
    have later : Ends (answers files) () ()
        (seeder.fetchFromFriends paths announce entries) second ()
        (some (hash, data, origin)) →
        ∃ event ∈ first ++ second,
          verifiedAgainst paths.sharerr hash event := by
      intro rest
      obtain ⟨event, made, about⟩ := ih rest
      exact ⟨event, List.mem_append_right _ made, about⟩
    cases fetched with
    | error reason => exact later rest
    | ok found =>
      cases found with
      | none => exact later rest
      | some found =>
        cases (Ends.done_iff.mp rest).2.2
        obtain ⟨event, made, about⟩ := fetchFromFriend_verified one
        exact ⟨event, List.mem_append_left _ made, about⟩

theorem createTorrent_built {rootName : Option String} {sidecars : List String}
    (ends : Ends (answers files) () ()
      (seeder.createTorrent paths announce media rootName sidecars) trace ()
      (.finished built)) :
    ∃ event ∈ trace, builtFrom paths.sharerr built.infoHash event := by
  unfold createTorrent at ends
  dsimp only at ends
  split at ends
  · obtain ⟨work, _, later, rfl, -, rest⟩ := Ends.call_iff.mp ends
    cases (Ends.done_iff.mp rest).2.2
    exact ⟨_, List.mem_cons_self, rfl, rfl⟩
  · obtain ⟨work, _, later, rfl, -, rest⟩ := Ends.call_iff.mp ends
    cases (Ends.done_iff.mp rest).2.2
    exact ⟨_, List.mem_cons_self, rfl, rfl⟩

theorem build_built
    (ends : Ends (answers files) () () (seeder.build paths announce media) trace
      () (.ok built)) :
    ∃ event ∈ trace, builtFrom paths.sharerr built.infoHash event := by
  unfold build at ends
  dsimp only at ends
  obtain ⟨first, second, _, sidecars, rfl, -, ends⟩ := Ends.bind_iff.mp ends
  obtain ⟨third, fourth, _, work, rfl, created, ends⟩ := Ends.bind_iff.mp ends
  obtain ⟨torrent, finished, ends⟩ := Ends.proceed_ok ends
  cases Blocking.eq_finished_of_result finished
  obtain ⟨_, _, _, -, -, last⟩ := Ends.call_iff.mp ends
  cases (Ends.done_iff.mp last).2.2
  obtain ⟨event, made, about⟩ := createTorrent_built created
  exact ⟨event, List.mem_append_right _ (List.mem_append_left _ made), about⟩

theorem handOver_names {outcome : SeedOutcome}
    (ends : Ends (answers files) () () (seeder.handOver paths acquired) trace ()
      (.ok outcome)) : outcome.infoHash = acquired.infoHash := by
  unfold handOver at ends
  obtain ⟨savePath, -, ends⟩ := Ends.proceed_ok ends
  obtain ⟨added, _, _, -, -, ends⟩ := Ends.call_iff.mp ends
  obtain ⟨_, -, ends⟩ := Ends.proceed_ok ends
  cases (Ends.done_iff.mp ends).2.2
  cases acquired.joined with
  | none => rfl
  | some origin => rfl

/-- What is acquired was recorded, or compared with the file, or built from
it. -/
theorem acquire_shown {friends : FriendTorrents}
    (ends : Ends (answers files) () ()
      (seeder.acquire paths announce known media friends) trace ()
      (.ok acquired)) :
    known = some acquired.infoHash ∨
      ∃ event ∈ trace, verifiedAgainst paths.sharerr acquired.infoHash event ∨
        builtFrom paths.sharerr acquired.infoHash event := by
  unfold acquire at ends
  obtain ⟨first, second, _, reused, rfl, cached, ends⟩ := Ends.bind_iff.mp ends
  cases reused with
  | some pair =>
    obtain ⟨hash, data⟩ := pair
    left
    rw [reuseCached_known cached]
    dsimp only at ends
    split at ends
    · obtain ⟨handed, -, ends⟩ := Ends.proceed_ok ends
      cases (Ends.done_iff.mp ends).2.2
      rfl
    · cases (Ends.done_iff.mp ends).2.2
      rfl
  | none =>
    right
    obtain ⟨third, fourth, _, found, rfl, fetched, ends⟩ :=
      Ends.bind_iff.mp ends
    cases found with
    | some found =>
      obtain ⟨hash, data, origin⟩ := found
      cases (Ends.done_iff.mp ends).2.2
      obtain ⟨event, made, about⟩ := fetchFromFriends_verified fetched
      exact ⟨event, List.mem_append_right _ (List.mem_append_left _ made),
        .inl about⟩
    | none =>
      obtain ⟨fifth, sixth, _, built, rfl, building, ends⟩ :=
        Ends.attempt_ok ends
      cases (Ends.done_iff.mp ends).2.2
      obtain ⟨event, made, about⟩ := build_built building
      exact ⟨event, List.mem_append_right _ (List.mem_append_right _
        (List.mem_append_left _ made)), .inr about⟩

end Parts

variable {seeder : Seeder} {paths : ResolvedPaths} {seeded : Seeded}
  {infoHash : String}

variable {input : Input} {entry : CatalogEntry} {peer : Nat}

theorem not_matchesContentPath_of_searched {target : String} {trace : Trace}
    (ends : Ends (answers input.files) () ()
      (findExisting input.torrents target) trace () none) :
    ¬ ∃ torrent ∈ input.torrents,
      matchesContentPath torrent target = true := by
  intro found
  obtain ⟨torrent, among, matched⟩ := found
  unfold findExisting at ends
  split at ends
  · cases (Ends.done_iff.mp ends).2.2
  · rename_i absent
    exact List.find?_eq_none.mp absent torrent among matched

/-- A call over related catalogs has something to show for the hash it
chooses, or had it recorded. -/
theorem Seeded.shows_or_known (ran : seeded.Ran seeder paths)
    (related : seeded.input.Related paths.qbit)
    (chose : seeded.Chose infoHash) :
    seeded.Shows paths infoHash ∨ seeded.known = some infoHash := by
  obtain ⟨input, known, trace, result⟩ := seeded
  obtain ⟨outcome, ended, named⟩ := chose
  dsimp only at ended
  subst ended
  unfold Ran seed at ran
  obtain ⟨first, second, _, existing, rfl, searched, ends⟩ :=
    Ends.bind_iff.mp ran
  cases existing with
  | some existing =>
    obtain ⟨third, fourth, _, upstream, rfl, -, ends⟩ := Ends.attempt_ok ends
    cases (Ends.done_iff.mp ends).2.2
    obtain ⟨torrent, listed, same, covers⟩ := findExisting_covers searched
    have sameHash : SameHash torrent.hash infoHash := by
      rw [same, ← named]
      rfl
    exact .inl (.contained torrent listed sameHash covers)
  | none =>
    dsimp only at ends
    split at ends
    · rename_i peer entry held
      obtain ⟨third, fourth, _, upstream, rfl, -, ends⟩ :=
        Ends.attempt_ok ends
      cases (Ends.done_iff.mp ends).2.2
      rcases related with matched | contains
      · exact absurd matched (not_matchesContentPath_of_searched searched)
      · obtain ⟨torrent, listed, same, covers⟩ := contains peer entry held
        rw [← named]
        exact .inl (.contained torrent listed same covers)
    · obtain ⟨third, fourth, _, acquired, rfl, acquiring, handing⟩ :=
        Ends.attempt_ok ends
      rw [handOver_names handing] at named
      rw [← named]
      rcases acquire_shown acquiring with recorded | ⟨event, made, about⟩
      · exact .inr recorded
      · have among : event ∈ first ++ (third ++ fourth) :=
          List.mem_append_right _ (List.mem_append_left _ made)
        rcases about with verified | built
        · exact .inl (.verified event among verified)
        · exact .inl (.built event among built)

theorem Backed.more {past : List Seeded} {next : Seeded}
    (backed : Backed paths past)
    (shown : ∀ hash, next.Chose hash → next.Shows paths hash ∨
      ∃ earlier ∈ past, earlier.Chose hash) :
    Backed paths (past ++ [next]) := by
  intro before seeded later hash whole chose
  rcases Process.split_last whole with ⟨rfl, rfl⟩ | ⟨rest, rfl, rfl⟩
  · rcases shown hash chose with shows | ⟨earlier, among, choseToo⟩
    · exact ⟨next, by simp, chose, shows⟩
    · obtain ⟨first, last, rfl⟩ := List.append_of_mem among
      obtain ⟨source, member, facts⟩ := backed first earlier last hash rfl
        choseToo
      refine ⟨source, ?_, facts⟩
      rcases List.mem_append.mp member with old | same
      · simp [old]
      · simp [List.mem_singleton.mp same]
  · exact backed before seeded rest hash rfl chose

theorem Life.backed {life : List Seeded} (lived : Life seeder paths life)
    (related : ∀ seeded ∈ life, seeded.input.Related paths.qbit) :
    Backed paths life := by
  induction lived with
  | start =>
    intro past seeded later hash whole
    simp at whole
  | @more past next _ ran recorded ih =>
    apply (ih fun seeded among => related seeded
      (List.mem_append_left _ among)).more
    intro hash chose
    rcases Seeded.shows_or_known ran
      (related next (List.mem_append_right _ List.mem_cons_self)) chose with
      shows | known
    · exact .inl shows
    · exact .inr (recorded hash known)

/-- The torrent a client hands back, announcing to us already. -/
def handedBack (announce : AnnounceSet) (infoHash : String) : Torrent where
  announce := some announce.primary
  announceList := none
  info := ⟨infoHash, none, none, none, 0, true⟩

def refusals (torrents : List TorrentSummary) : Trace :=
  torrents.map fun torrent => ⟨(), .files torrent.hash, .error "timed out"⟩

/-- The calls of an adoption of a torrent the cache does not have. -/
def adoption (announce : AnnounceSet) (infoHash : String) : Trace :=
  [⟨(), .addTrackers infoHash announce.tiers, .ok ()⟩,
    ⟨(), .readCached infoHash, .ok none⟩,
    ⟨(), .export_ infoHash, .ok (some (.encoded
      (handedBack announce infoHash)))⟩,
    ⟨(), .writeCached infoHash (.encoded (handedBack announce infoHash)),
      .finished ()⟩]

theorem searchFiles_refused (files : String → List TorrentFileEntry)
    (target : String) (torrents : List TorrentSummary) :
    Ends (answers files) () () (searchFiles target torrents)
      (refusals torrents) () none := by
  induction torrents with
  | nil => exact .done
  | cons torrent torrents ih => exact .call rfl ih

theorem adopt_adopts (seeder : Seeder) (files : String → List TorrentFileEntry)
    (announce : AnnounceSet) (infoHash : String) :
    Ends (answers files) () () (seeder.adopt infoHash announce)
      (adoption announce infoHash) ()
      (.ok (foreignTiers (handedBack announce infoHash) announce)) := by
  have retargeted : retargetAnnounce
      (.encoded (handedBack announce infoHash)) announce =
        .ok (.current (handedBack announce infoHash)) := by
    simp [retargetAnnounce, handedBack, Torrent.readFromBytes, bind,
      Except.bind, pure, Except.pure]
  have same : Rust.eqIgnoreAsciiCase
      (handedBack announce infoHash).info.infoHash infoHash = true := by
    simp [Rust.eqIgnoreAsciiCase, handedBack]
  unfold adopt fileAdopted
  refine .call rfl (.call rfl (.call rfl ?_))
  simp only [context, Prog.proceed]
  unfold adoptBytes storeAdopted
  simp only [retargeted, context, Prog.proceed, same, if_true,
    Torrent.readFromBytes]
  exact .call rfl .done

/-- The call that adopts the torrent of a match. -/
def adopting (input : Input) (peer : Nat) (entry : CatalogEntry)
    (target : String) : Seeded where
  input := input
  known := none
  trace := refusals (input.torrents.filter fun torrent =>
      couldContain torrent target) ++ adoption input.announce entry.infoHash
  result := .ok (.joined entry.infoHash
    ⟨some peer, foreignTiers (handedBack input.announce entry.infoHash)
      input.announce⟩ none)

theorem adopting_ran
    (unmatched : ¬ ∃ torrent ∈ input.torrents,
      matchesContentPath torrent paths.qbit = true)
    (held : input.friends.held input.torrents = some (peer, entry)) :
    (adopting input peer entry paths.qbit).Ran seeder paths := by
  have absent : (input.torrents.find? fun torrent =>
      matchesContentPath torrent paths.qbit) = none := by
    rw [List.find?_eq_none]
    intro torrent among matched
    exact unmatched ⟨torrent, among, matched⟩
  unfold Seeded.Ran seed findExisting adopting
  rw [absent]
  refine Ends.bind_iff.mpr ⟨_, _, (), none, rfl,
    searchFiles_refused input.files _ _, ?_⟩
  rw [held]
  exact Ends.attempt_iff.mpr (.inr ⟨_, [], (), _, (List.append_nil _).symm,
    adopt_adopts seeder input.files input.announce entry.infoHash, .done⟩)

theorem not_shows_adopting
    (unrelated : ¬ ∃ torrent ∈ input.torrents,
      SameHash torrent.hash entry.infoHash ∧
        input.Covers paths.qbit torrent) :
    ¬ (adopting input peer entry paths.qbit).Shows paths entry.infoHash := by
  have quiet : ∀ event ∈ (adopting input peer entry paths.qbit).trace,
      ¬ verifiedAgainst paths.sharerr entry.infoHash event ∧
        ¬ builtFrom paths.sharerr entry.infoHash event := by
    intro event made
    rcases List.mem_append.mp made with refused | adopted
    · obtain ⟨torrent, -, rfl⟩ := List.mem_map.mp refused
      exact ⟨id, id⟩
    · simp only [adoption, List.mem_cons, List.not_mem_nil, or_false] at adopted
      rcases adopted with rfl | rfl | rfl | rfl
      · exact ⟨id, id⟩
      · exact ⟨id, id⟩
      · exact ⟨id, id⟩
      · exact ⟨id, id⟩
  intro shows
  cases shows with
  | contained torrent listed named covers =>
    exact unrelated ⟨torrent, listed, named, covers⟩
  | verified event made about => exact (quiet event made).1 about
  | built event made about => exact (quiet event made).2 about

theorem adopting_life
    (unmatched : ¬ ∃ torrent ∈ input.torrents,
      matchesContentPath torrent paths.qbit = true)
    (held : input.friends.held input.torrents = some (peer, entry)) :
    Life seeder paths [adopting input peer entry paths.qbit] := by
  apply Life.more .start (adopting_ran unmatched held)
  intro hash known
  cases known

theorem not_backed_adopting
    (unrelated : ¬ ∃ torrent ∈ input.torrents,
      SameHash torrent.hash entry.infoHash ∧
        input.Covers paths.qbit torrent) :
    ¬ Backed paths [adopting input peer entry paths.qbit] := by
  intro backed
  obtain ⟨source, member, -, shows⟩ :=
    backed [] _ [] entry.infoHash rfl ⟨_, rfl, rfl⟩
  rw [List.nil_append, List.mem_singleton] at member
  rw [member] at shows
  exact not_shows_adopting unrelated shows

/-- Every hash chosen for a file is backed by evidence, in every life over
some inputs, if and only if all of these are related. -/
theorem backed_iff_related (seeder : Seeder) (paths : ResolvedPaths)
    (inputs : List Input) :
    (∀ life, Life seeder paths life →
        (∀ seeded ∈ life, seeded.input ∈ inputs) → Backed paths life) ↔
      ∀ input ∈ inputs, input.Related paths.qbit := by
  constructor
  · intro backed input among
    by_contra unrelated
    obtain ⟨unmatched, claimed⟩ := not_or.mp unrelated
    simp only [not_forall] at claimed
    obtain ⟨peer, entry, held, unrelated⟩ := claimed
    apply not_backed_adopting unrelated
    apply backed _ (adopting_life unmatched held)
    intro seeded same
    rw [List.mem_singleton.mp same]
    exact among
  · intro related life lived within
    exact lived.backed fun seeded among => related _ (within seeded among)

instance (input : Input) (target : String) (torrent : TorrentSummary) :
    Decidable (input.Covers target torrent) :=
  inferInstanceAs (Decidable (_ ∨ _))

def diaryHash : String := "0123456789abcdef0123456789abcdef01234567"

/-- A torrent of the operator's own, of something else. -/
def diary : TorrentSummary where
  hash := diaryHash
  name := "diary"
  savePath := "/private"
  contentPath := "/private/diary"
  category := ""
  tags := []
  isSeeding := true
  isStopped := false
  ratio := none
  ratioLimit := none
  uploadLimitKib := none

def filmIds : ExternalIds :=
  ⟨none, some 603, none, none, none, none, none, none⟩

/-- What a friend lists: our film by its metadata, under the diary's hash. -/
def graftedCatalog : Catalog where
  token := none
  entries := [some ⟨diaryHash, .movie "Copper Vale" (some 1999), filmIds,
    700000000, false⟩]

def filmInput : Input where
  announce := ⟨["http://sharerr.example/announce"], by simp⟩
  torrents := [diary]
  files := fun _ => [⟨"diary/2024.txt", 4096⟩]
  catalogs := pull [] 7 "http://friend.example/" graftedCatalog
  active := fun _ => true
  spec := .movie "Copper Vale" (some 1999)
  ids := filmIds
  size := 700000000
  media := none
  joined := none

def filmPaths : ResolvedPaths :=
  ⟨"/media/Copper Vale.mkv", "/media/Copper Vale.mkv",
    "/media/Copper Vale.mkv", false⟩

/-- The film is seeded, and offered, as the operator's diary. -/
theorem diary_adopted_for_film :
    ¬ ∀ life, Life homeSeeder filmPaths life →
      (∀ seeded ∈ life, seeded.input ∈ [filmInput]) →
        Backed filmPaths life := by
  intro backed
  have held : (filmInput.friends.held filmInput.torrents).isSome = true := by
    decide +kernel
  have named : (filmInput.friends.held filmInput.torrents).map
      (fun found => found.2.infoHash) = some diaryHash := by
    decide +kernel
  obtain ⟨⟨peer, entry⟩, matched⟩ := Option.isSome_iff_exists.mp held
  rw [matched] at named
  have hash : entry.infoHash = diaryHash := Option.some.inj named
  have unrelated : ¬ ∃ torrent ∈ filmInput.torrents,
      SameHash torrent.hash entry.infoHash ∧
        filmInput.Covers filmPaths.qbit torrent := by
    rw [hash]
    decide +kernel
  apply not_backed_adopting unrelated
  apply backed _ (adopting_life (by decide +kernel) matched)
  intro seeded same
  rw [List.mem_singleton.mp same]
  exact List.mem_cons_self

end Seeder

end Sharerr
