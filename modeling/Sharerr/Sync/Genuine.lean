import Sharerr.Sync.Passes

/-!
# What a torrent is recorded to be

A torrent sharerr handed to the client is recorded with what its own
`.torrent` says: whether it is private, and its second identity.  As long as a
hash stands for one info dictionary, and the torrent directory for what was
filed in it, that is what the torrent under the recorded hash is.
-/

namespace Sharerr

/-- What the torrent of each info hash, in lower case, consists of. -/
abbrev Dictionaries := String → Info

section Genuine

variable (dictionaries : Dictionaries)

/-- The torrent of its hash. -/
def Torrent.Genuine (torrent : Torrent) : Prop :=
  torrent.info = dictionaries (Rust.toAsciiLowercase torrent.info.infoHash)

/-- Bytes that, if they parse, are the torrent of their hash. -/
def TorrentFile.Genuine (data : TorrentFile) : Prop :=
  ∀ torrent, Torrent.readFromBytes data = .ok torrent →
    torrent.Genuine dictionaries

/-- The bytes of the torrent of `hash`. -/
structure TorrentFile.IsOf (hash : String) (data : TorrentFile) : Prop where
  reads : ∃ torrent, Torrent.readFromBytes data = .ok torrent ∧
    SameHash torrent.info.infoHash hash
  genuine : data.Genuine dictionaries

/-- What the seeder is answered about torrents, where the factory and the
friends hand out torrents of the hash they have. -/
def Seeder.Honest : (request : Seeder.Call) → Seeder.Answer request → Prop
  | .create _, .finished built =>
    built.data.IsOf dictionaries built.infoHash
  | .createWithSidecars _, .finished built =>
    built.data.IsOf dictionaries built.infoHash
  | .export_ _, .ok (some data) => data.Genuine dictionaries
  | .fetch _, .ok response => ∀ length data,
      response.body = .ok (length, data) → data.Genuine dictionaries
  | .readCached hash, .ok (some data) => data.IsOf dictionaries hash
  | _, _ => True

/-- The requests that file nothing under the wrong hash. -/
def Seeder.Call.FilesRight : Seeder.Call → Prop
  | .writeCached hash data => data.IsOf dictionaries hash
  | _ => True

/-- The outcome says of a torrent sharerr handed over what it is. -/
def Seeder.TrueOutcome : SeedOutcome → Prop
  | .added infoHash isPrivate infoHashV2 =>
    let info := dictionaries (Rust.toAsciiLowercase infoHash)
    isPrivate = info.isPrivate ∧ infoHashV2 = info.infoHashV2
  | .joined infoHash _ (some added) =>
    let info := dictionaries (Rust.toAsciiLowercase infoHash)
    added.isPrivate = info.isPrivate ∧ added.infoHashV2 = info.infoHashV2
  | _ => True

end Genuine

variable {dictionaries : Dictionaries}

variable {torrent : Torrent} {hash : String}

theorem Torrent.Genuine.announcingTo (genuine : torrent.Genuine dictionaries)
    (announce : AnnounceSet) :
    (torrent.announcingTo announce).Genuine dictionaries :=
  genuine

theorem TorrentFile.isOf_encode (genuine : torrent.Genuine dictionaries)
    (same : SameHash torrent.info.infoHash hash) :
    torrent.encode.IsOf dictionaries hash := by
  refine ⟨⟨torrent, rfl, same⟩, fun other read => ?_⟩
  cases read
  exact genuine

instance (torrent : Torrent) : Decidable (torrent.Genuine dictionaries) :=
  inferInstanceAs (Decidable (_ = _))

theorem TorrentFile.genuine_encoded :
    (TorrentFile.encoded torrent).Genuine dictionaries ↔
      torrent.Genuine dictionaries := by
  constructor
  · exact fun genuine => genuine torrent rfl
  · intro genuine other read
    cases read
    exact genuine

instance : (data : TorrentFile) → Decidable (data.Genuine dictionaries)
  | .encoded torrent =>
    decidable_of_iff (torrent.Genuine dictionaries)
      TorrentFile.genuine_encoded.symm
  | .malformed .. => isTrue fun _ impossible => nomatch impossible

theorem TorrentFile.isOf_encoded :
    (TorrentFile.encoded torrent).IsOf dictionaries hash ↔
      SameHash torrent.info.infoHash hash ∧
        torrent.Genuine dictionaries := by
  constructor
  · rintro ⟨⟨other, read, same⟩, genuine⟩
    cases read
    exact ⟨same, genuine torrent rfl⟩
  · rintro ⟨same, genuine⟩
    exact isOf_encode genuine same

instance (hash : String) : (data : TorrentFile) →
    Decidable (data.IsOf dictionaries hash)
  | .encoded _ => decidable_of_iff (_ ∧ _) TorrentFile.isOf_encoded.symm
  | .malformed .. => isFalse fun ⟨⟨_, impossible, _⟩, _⟩ => nomatch impossible

theorem TorrentFile.IsOf.info {data : TorrentFile}
    (of : data.IsOf dictionaries hash) :
    ∃ torrent, Torrent.readFromBytes data = .ok torrent ∧
      SameHash torrent.info.infoHash hash ∧
        torrent.Genuine dictionaries ∧
          torrent.info = dictionaries (Rust.toAsciiLowercase hash) := by
  obtain ⟨torrent, read, same⟩ := of.reads
  have genuine := of.genuine torrent read
  exact ⟨torrent, read, same, genuine, genuine.trans (congrArg _ same)⟩

namespace Seeder

open Process (Prog)
open Process.Prog (Only Ensures)

/-- The requests that file nothing. -/
def Call.Unfiled : Call → Prop
  | .writeCached .. => False
  | _ => True

theorem Call.Unfiled.right {request : Call} (unfiled : request.Unfiled) :
    request.FilesRight dictionaries := by
  cases request with
  | writeCached => exact unfiled.elim
  | _ => trivial

theorem Call.Looks.unfiled {request : Call} (looks : request.Looks) :
    request.Unfiled := by
  cases request with
  | writeCached => exact looks.elim
  | _ => trivial

theorem ensures_of_looks {α : Type} {program : Program α}
    (looks : program.Only Call.Looks) :
    program.Ensures (Call.FilesRight dictionaries) (Honest dictionaries)
      fun _ => True :=
  Ensures.of_only (looks.mono fun _ looks => looks.unfiled.right)

variable {announce : AnnounceSet} {data : TorrentFile}

theorem isOf_of_retargeted {rewritten : TorrentFile} {previous : Option String}
    (of : data.IsOf dictionaries hash)
    (retargeted : retargetAnnounce data announce =
      .ok (.updated previous torrent rewritten)) :
    rewritten.IsOf dictionaries hash := by
  obtain ⟨read, rfl, ⟨-, other⟩ | same⟩ := retargetAnnounce_cases retargeted
  · cases other
  · cases same
    obtain ⟨torrent, parsed, named, genuine, -⟩ := of.info
    cases parsed
    exact TorrentFile.isOf_encode (genuine.announcingTo announce) named

theorem isOf_of_withUpstream {joined : TorrentFile} {upstream : List String}
    (of : data.IsOf dictionaries hash)
    (extended : withUpstream data announce upstream = .ok joined) :
    joined.IsOf dictionaries hash := by
  obtain ⟨torrent, parsed, named, genuine, -⟩ := of.info
  rw [withUpstream, parsed] at extended
  cases extended
  exact TorrentFile.isOf_encode genuine named

theorem reuseCached_ensures (known : Option String) (announce : AnnounceSet)
    (paths : ResolvedPaths) :
    (reuseCached known announce paths).Ensures (Call.FilesRight dictionaries)
      (Honest dictionaries) fun reused => ∀ hash data,
        reused = some (hash, data) → data.IsOf dictionaries hash := by
  cases known with
  | none => exact fun _ _ impossible => nomatch impossible
  | some hash =>
    refine ⟨trivial, fun read true_ => ?_⟩
    match read, true_ with
    | .error _, _ => exact fun _ _ impossible => nomatch impossible
    | .ok none, _ => exact fun _ _ impossible => nomatch impossible
    | .ok (some data), true_ =>
      have of : data.IsOf dictionaries hash := true_
      dsimp only
      split
      · exact fun _ _ impossible => nomatch impossible
      · rename_i outcome retargeted
        apply (ensures_of_looks (cachedSizeIsStale_looks ..)).bind
        intro stale _
        cases stale with
        | true => exact fun _ _ impossible => nomatch impossible
        | false =>
          cases outcome with
          | current torrent =>
            intro other reused same
            cases same
            exact of
          | updated previous torrent rewritten =>
            have kept := isOf_of_retargeted of retargeted
            refine ⟨kept, fun _ _ other reused same => ?_⟩
            cases same
            exact kept

variable (seeder : Seeder)

theorem keepFriendTorrent_ensures (announce : AnnounceSet) (peerId : Nat)
    {bytes : TorrentFile} (parsed : Torrent.readFromBytes bytes = .ok torrent)
    (genuine : bytes.Genuine dictionaries) :
    (seeder.keepFriendTorrent announce peerId bytes torrent).Ensures
      (Call.FilesRight dictionaries) (Honest dictionaries) fun kept =>
        ∀ hash data origin, kept = .ok (some (hash, data, origin)) →
          data.IsOf dictionaries hash := by
  have of : bytes.IsOf dictionaries torrent.info.infoHash :=
    ⟨⟨torrent, parsed, rfl⟩, genuine⟩
  apply Ensures.proceed
  · exact fun _ _ _ _ impossible => nomatch impossible
  · intro cached rewritten
    refine ⟨?_, fun wrote _ => ?_⟩
    · obtain ⟨read, again, made⟩ := Rust.bind_eq_ok rewritten
      cases made
      rw [parsed] at again
      cases again
      exact TorrentFile.isOf_encode
        ((genuine torrent parsed).announcingTo announce) rfl
    · apply Ensures.proceed
      · exact fun _ _ _ _ impossible => nomatch impossible
      · intro _ _
        apply Ensures.proceed
        · exact fun _ _ _ _ impossible => nomatch impossible
        · intro data extended _ _ _ same
          cases same
          exact isOf_of_withUpstream of extended

theorem fetchFromFriend_ensures (paths : ResolvedPaths)
    (announce : AnnounceSet) (peerId : Nat) (entry : CatalogEntry) :
    (seeder.fetchFromFriend paths announce peerId entry).Ensures
      (Call.FilesRight dictionaries) (Honest dictionaries) fun fetched =>
        ∀ hash data origin, fetched = .ok (some (hash, data, origin)) →
          data.IsOf dictionaries hash := by
  refine ⟨trivial, fun response true_ => ?_⟩
  apply Ensures.proceed
  · exact fun _ _ _ _ impossible => nomatch impossible
  · intro response answered
    have true_ := (eq_ok_of_context answered ▸ true_ :
      Honest dictionaries (.fetch entry.downloadUrl) (.ok response))
    apply Ensures.proceed
    · exact fun _ _ _ _ impossible => nomatch impossible
    · rintro ⟨bytes, torrent⟩ taken
      obtain ⟨length, body, parsed, -⟩ := readFriendTorrent_eq_ok taken
      dsimp only
      split
      · exact fun _ _ _ impossible => nomatch impossible
      · split
        · exact fun _ _ _ impossible => nomatch impossible
        · refine ⟨trivial, fun verified _ => ?_⟩
          apply Ensures.proceed
          · exact fun _ _ _ _ impossible => nomatch impossible
          · intro passed _
            cases passed with
            | false => exact fun _ _ _ impossible => nomatch impossible
            | true =>
              exact seeder.keepFriendTorrent_ensures announce peerId
                parsed (true_ length bytes body)

theorem fetchFromFriends_ensures (paths : ResolvedPaths)
    (announce : AnnounceSet) (entries : List (Nat × CatalogEntry)) :
    (seeder.fetchFromFriends paths announce entries).Ensures
      (Call.FilesRight dictionaries) (Honest dictionaries) fun fetched =>
        ∀ hash data origin, fetched = some (hash, data, origin) →
          data.IsOf dictionaries hash := by
  induction entries with
  | nil => exact fun _ _ _ impossible => nomatch impossible
  | cons entry entries ih =>
    apply (seeder.fetchFromFriend_ensures ..).bind
    intro fetched of
    match fetched with
    | .error reason => exact ih
    | .ok none => exact ih
    | .ok (some (hash, data, origin)) =>
      intro _ _ _ same
      cases same
      exact of hash data origin rfl

theorem build_ensures (paths : ResolvedPaths) (announce : AnnounceSet)
    (media : Option MediaMeta) :
    (seeder.build paths announce media).Ensures (Call.FilesRight dictionaries)
      (Honest dictionaries) fun built =>
        ∀ result, built = .ok result →
          result.data.IsOf dictionaries result.infoHash := by
  have creating : ∀ rootName sidecars, (seeder.createTorrent paths announce
      media rootName sidecars).Ensures (Call.FilesRight dictionaries)
        (Honest dictionaries) fun built => ∀ result,
          built = .finished result →
            result.data.IsOf dictionaries result.infoHash := by
    intro rootName sidecars
    unfold createTorrent
    dsimp only
    split
    · refine ⟨trivial, fun built true_ => ?_⟩
      rintro result rfl
      exact true_
    · refine ⟨trivial, fun built true_ => ?_⟩
      rintro result rfl
      exact true_
  apply (ensures_of_looks (seeder.sidecarsFor_looks ..)).bind
  intro sidecars _
  apply (creating _ sidecars).bind
  intro built of
  apply Ensures.proceed
  · exact fun _ _ impossible => nomatch impossible
  · intro result ended
    have made := of result (Blocking.eq_finished_of_result ended)
    refine ⟨made, fun _ _ other same => ?_⟩
    cases same
    exact made

theorem acquire_ensures (paths : ResolvedPaths) (announce : AnnounceSet)
    (known : Option String) (media : Option MediaMeta)
    (friends : FriendTorrents) :
    (seeder.acquire paths announce known media friends).Ensures
      (Call.FilesRight dictionaries) (Honest dictionaries) fun acquired =>
        ∀ result, acquired = .ok result →
          result.data.IsOf dictionaries result.infoHash := by
  apply (reuseCached_ensures known announce paths).bind
  intro reused of
  match reused with
  | some (hash, data) =>
    dsimp only
    split
    · apply Ensures.proceed
      · exact fun _ _ impossible => nomatch impossible
      · intro joined extended other same
        cases same
        exact isOf_of_withUpstream (of hash data rfl) extended
    · intro other same
      cases same
      exact of hash data rfl
  | none =>
    apply (seeder.fetchFromFriends_ensures ..).bind
    intro fetched of
    match fetched with
    | some (hash, data, origin) =>
      intro other same
      cases same
      exact of hash data origin rfl
    | none =>
      apply (seeder.build_ensures ..).bind
      intro built of
      apply Ensures.proceed
      · exact fun _ _ impossible => nomatch impossible
      · intro result ended other same
        cases same
        exact of result ended

/-- What is handed over is recorded with what its own bytes say. -/
theorem handOver_ensures (paths : ResolvedPaths) {acquired : Acquired}
    (of : acquired.data.IsOf dictionaries acquired.infoHash) :
    (seeder.handOver paths acquired).Ensures (Call.FilesRight dictionaries)
      (Honest dictionaries) fun handed =>
        ∀ outcome, handed = .ok outcome → TrueOutcome dictionaries outcome := by
  obtain ⟨torrent, parsed, -, -, info⟩ := of.info
  unfold handOver
  rw [parsed]
  apply Ensures.proceed
  · exact fun _ _ impossible => nomatch impossible
  · intro savePath _
    refine ⟨trivial, fun added _ => ?_⟩
    apply Ensures.proceed
    · exact fun _ _ impossible => nomatch impossible
    · intro _ _ outcome same
      cases same
      split
      · exact ⟨congrArg Info.isPrivate info, congrArg Info.infoHashV2 info⟩
      · exact ⟨congrArg Info.isPrivate info, congrArg Info.infoHashV2 info⟩

/-- What is filed for an adopted torrent is that torrent. -/
theorem adopt_ensures (infoHash : String) (announce : AnnounceSet) :
    (seeder.adopt infoHash announce).Ensures (Call.FilesRight dictionaries)
      (Honest dictionaries) fun _ => True := by
  have storing : ∀ {rewritten : TorrentFile} {torrent : Torrent} upstream,
      rewritten = torrent.encode → torrent.Genuine dictionaries →
        (seeder.storeAdopted infoHash rewritten torrent.info.infoHash
          upstream).Ensures (Call.FilesRight dictionaries)
            (Honest dictionaries) fun _ => True := by
    rintro _ torrent upstream rfl genuine
    unfold storeAdopted
    split
    · rename_i same
      refine ⟨TorrentFile.isOf_encode genuine ?_, fun wrote _ => ?_⟩
      · exact of_decide_eq_true same
      · exact Ensures.proceed (fun _ => trivial) fun _ _ => trivial
    · trivial
  have rewriting : ∀ {data : TorrentFile} fromCache,
      data.Genuine dictionaries →
        (seeder.adoptBytes infoHash announce fromCache data).Ensures
          (Call.FilesRight dictionaries) (Honest dictionaries)
            fun _ => True := by
    intro data fromCache genuine
    apply Ensures.proceed
    · exact fun _ => trivial
    · intro outcome ended
      obtain ⟨read, rfl, ⟨-, rfl⟩ | rfl⟩ :=
        retargetAnnounce_cases (eq_ok_of_context ended)
      · dsimp only
        split
        · trivial
        · exact storing _ rfl (genuine read rfl)
      · exact storing _ rfl ((genuine read rfl).announcingTo announce)
  refine ⟨trivial, fun added _ => ?_⟩
  apply Ensures.proceed
  · exact fun _ => trivial
  · intro _ _
    refine ⟨trivial, fun read true_ => ?_⟩
    apply Ensures.proceed
    · exact fun _ => trivial
    · intro cached ended
      cases cached with
      | some data =>
        obtain rfl := eq_ok_of_context ended
        exact rewriting true (TorrentFile.IsOf.genuine true_)
      | none =>
        refine ⟨trivial, fun exported true_ => ?_⟩
        apply Ensures.proceed
        · exact fun _ => trivial
        · intro given ended
          obtain rfl := eq_ok_of_context ended
          cases given with
          | none => trivial
          | some data => exact rewriting false true_

theorem seed_ensures (paths : ResolvedPaths) (announce : AnnounceSet)
    (torrents : List TorrentSummary) (known : Option String)
    (media : Option MediaMeta) (friends : FriendTorrents) :
    (seeder.seed paths announce torrents known media friends).Ensures
      (Call.FilesRight dictionaries) (Honest dictionaries) fun seeded =>
        ∀ outcome, seeded = .ok outcome → TrueOutcome dictionaries outcome := by
  apply (ensures_of_looks (findExisting_looks ..)).bind
  intro existing _
  cases existing with
  | some existing =>
    apply (seeder.adopt_ensures ..).bind
    intro upstream _
    apply Ensures.proceed
    · exact fun _ _ impossible => nomatch impossible
    · intro _ _ outcome same
      cases same
      trivial
  | none =>
    dsimp only
    split
    · apply (seeder.adopt_ensures ..).bind
      intro upstream _
      apply Ensures.proceed
      · exact fun _ _ impossible => nomatch impossible
      · intro _ _ outcome same
        cases same
        trivial
    · apply (seeder.acquire_ensures ..).bind
      intro acquired of
      apply Ensures.proceed
      · exact fun _ _ impossible => nomatch impossible
      · exact fun result ended => seeder.handOver_ensures paths
          (of result ended)

theorem refreshAnnounce_ensures (infoHash : String) (announce : AnnounceSet)
    (upstream : List String) :
    (seeder.refreshAnnounce infoHash announce upstream).Ensures
      (Call.FilesRight dictionaries) (Honest dictionaries)
        fun _ => True := by
  refine ⟨trivial, fun confirmed _ => ?_⟩
  cases confirmed with
  | true => trivial
  | false =>
    refine ⟨trivial, fun read true_ => ?_⟩
    apply Ensures.proceed
    · exact fun _ => trivial
    · intro cached ended
      obtain rfl := eq_ok_of_context ended
      cases cached with
      | none => trivial
      | some data =>
        have of : data.IsOf dictionaries infoHash := true_
        apply Ensures.proceed
        · exact fun _ => trivial
        · intro outcome ended
          have retargeted := eq_ok_of_context ended
          cases outcome with
          | current torrent => exact ⟨trivial, fun _ _ => trivial⟩
          | updated previous torrent rewritten =>
            refine ⟨trivial, fun set _ => ?_⟩
            apply Ensures.proceed
            · exact fun _ => trivial
            · intro _ _
              refine ⟨isOf_of_retargeted of retargeted,
                fun wrote _ => ?_⟩
              apply Ensures.proceed
              · exact fun _ => trivial
              · exact fun _ _ => ⟨trivial, fun _ _ => trivial⟩

end Seeder

namespace Sync

open Process

variable (dictionaries) in
/-- What is answered about torrents is right, and the torrent directory holds
what was filed in it. -/
structure TorrentsGenuine (moment : Moment) (event : Event) : Prop where
  honest : ∀ thread key request answer,
    event = ⟨thread, .seeder key request, answer⟩ →
      (∀ hash, request ≠ .readCached hash) →
        Seeder.Honest dictionaries request answer
  kept : ∀ thread key hash data,
    event = ⟨thread, .seeder key (.readCached hash), .ok (some data)⟩ →
      ∃ other answer, (⟨0, .seeder other (.writeCached hash data), answer⟩ :
        Event) ∈ moment.past

variable (dictionaries) in
/-- Whatever the syncer filed is the torrent it filed it as. -/
def FiledRight (past : List Event) : Prop :=
  ∀ key hash data answer,
    (⟨0, .seeder key (.writeCached hash data), answer⟩ : Event) ∈ past →
      data.IsOf dictionaries hash

variable {event : Event} {key : ItemKey}

theorem FiledRight.append {past : List Event}
    (filed : FiledRight dictionaries past)
    (right : ∀ key request, event.request = .seeder key request →
      request.FilesRight dictionaries) :
    FiledRight dictionaries (past ++ [event]) := by
  intro key hash data answer member
  rcases List.mem_append.mp member with old | new
  · exact filed key hash data answer old
  · have same := List.mem_singleton.mp new
    exact right key (.writeCached hash data) (same ▸ rfl)

variable {moment : Moment} {protocol : Protocol Nat World Call Answer}
  {request : Call}

theorem honest_of_genuine {thread : Nat} {request : Seeder.Call}
    {answer : Seeder.Answer request}
    (genuine : TorrentsGenuine dictionaries moment
      ⟨thread, .seeder key request, answer⟩)
    (filed : FiledRight dictionaries moment.past) :
    Seeder.Honest dictionaries request answer := by
  by_cases cached : ∃ hash, request = .readCached hash
  · obtain ⟨hash, rfl⟩ := cached
    match answer with
    | .error _ => trivial
    | .ok none => trivial
    | .ok (some data) =>
      obtain ⟨other, result, member⟩ := genuine.kept _ _ _ _ rfl
      exact filed other hash data result member
  · exact genuine.honest _ _ _ _ rfl fun hash same => cached ⟨hash, same⟩

variable (dictionaries) in
/-- A rule over such runs that the requests of the seeder keep as long as they
file what is right. -/
structure Trusting (protocol : Protocol Nat World Call Answer) : Prop where
  genuine : ∀ {moment event}, protocol.condition moment event →
    TorrentsGenuine dictionaries moment event
  filed : ∀ {moment}, protocol.invariant moment →
    FiledRight dictionaries moment.past
  kept : ∀ {thread key request before answer after},
    Performed protocol thread before (.seeder key request) answer after →
      FiledRight dictionaries after.past →
        protocol.invariant after ∧ protocol.guarantee thread before after

variable (dictionaries) in
def Honest : (request : Call) → Answer request → Prop
  | .seeder _ request, answer => Seeder.Honest dictionaries request answer
  | _, _ => True

/-- What the seeder does among honest answers, it does in such runs. -/
theorem Trusting.safe_forItem {α : Type}
    (trusting : Trusting dictionaries protocol) {property : List Event → Prop}
    (lasting : Lasting property) {program : Seeder.Program α} {good : α → Prop}
    (ensures : program.Ensures (Seeder.Call.FilesRight dictionaries)
      (Seeder.Honest dictionaries) good) (holds : property moment.past) :
    Safe protocol 0 (fun value after => good value ∧ property after.past)
      (Syncer.forItem key program) moment := by
  have lifted : (Syncer.forItem key program).Ensures
      (fun request => ∃ inner : Seeder.Call, request = .seeder key inner ∧
        inner.FilesRight dictionaries) (Honest dictionaries) good :=
    ensures.lift (fun inner right => ⟨inner, rfl, right⟩)
      fun inner answer true_ => true_
  apply Safe.of_ensures lasting.unshaken.stable _ lifted holds
  rintro before _ answer after ⟨inner, rfl, right⟩ held performed
  have filed : FiledRight dictionaries after.past := by
    rw [performed.past]
    apply (trusting.filed performed.holds).append
    intro other request same
    cases same
    exact right
  obtain ⟨invariant, guarantee⟩ := trusting.kept performed filed
  exact ⟨honest_of_genuine (trusting.genuine performed.meets)
    (trusting.filed performed.holds), invariant, guarantee,
      lasting.seeder performed held⟩

variable (dictionaries) in
/-- Whether the event is an honest answer, and not one of the torrent
directory. -/
def tellsTruth : Event → Bool
  | ⟨_, .seeder _ (.create _), .finished built⟩ =>
    built.data.IsOf dictionaries built.infoHash
  | ⟨_, .seeder _ (.createWithSidecars _), .finished built⟩ =>
    built.data.IsOf dictionaries built.infoHash
  | ⟨_, .seeder _ (.export_ _), .ok (some data)⟩ =>
    data.Genuine dictionaries
  | ⟨_, .seeder _ (.fetch _), .ok _⟩ => false
  | ⟨_, .seeder _ (.readCached _), .ok (some _)⟩ => false
  | _ => true

theorem genuine_of_tellsTruth (tells : tellsTruth dictionaries event = true) :
    TorrentsGenuine dictionaries moment event := by
  constructor
  · rintro thread key request answer rfl uncached
    cases request with
    | readCached hash => exact absurd rfl (uncached hash)
    | create request =>
      cases answer with
      | finished built =>
        have of : decide (built.data.IsOf dictionaries built.infoHash) =
          true := tells
        have is_of := of_decide_eq_true of
        exact is_of
      | _ => trivial
    | createWithSidecars request =>
      cases answer with
      | finished built =>
        have of : decide (built.data.IsOf dictionaries built.infoHash) =
          true := tells
        have is_of := of_decide_eq_true of
        exact is_of
      | _ => trivial
    | export_ hash =>
      match answer with
      | .ok (some data) =>
        have decided : decide (data.Genuine dictionaries) = true := tells
        have genuine := of_decide_eq_true decided
        exact genuine
      | .ok none | .error _ => trivial
    | fetch url =>
      match answer with
      | .ok response => cases tells
      | .error _ => trivial
    | _ => trivial
  · rintro thread key hash data rfl
    cases tells

/-- Whether an event is not an adoption. -/
def adoptsNothing : Event → Bool
  | ⟨_, .update _ (.setSeeding _ _ _ none), _⟩ => false
  | _ => true

/-- The calls that neither record a torrent nor file one. -/
def Call.IsSilent : Call → Prop
  | .seeder _ request => request.Unfiled
  | .update _ (.setSeeding ..) | .update _ (.setInfoHashV2 _) => False
  | .upsert item _ => item.infoHash = none
  | _ => True

theorem Call.IsCommon.silent (common : request.IsCommon) :
    request.IsSilent := by
  cases request with
  | seeder => exact common.elim
  | update key change =>
    cases change with
    | setSeeding | setInfoHashV2 => exact common
    | _ => trivial
  | upsert => exact common
  | _ => trivial

theorem Call.IsOpening.silent (opening : request.IsOpening) :
    request.IsSilent := by
  cases request with
  | seeder | update | upsert => exact opening.elim
  | _ => trivial

theorem Call.IsVisit.silent (visit : request.IsVisit) :
    request.IsSilent := by
  cases request with
  | seedingItems | audiences | edit => trivial
  | _ => exact visit.elim

theorem Call.Notes.silent (notes : request.Notes) : request.IsSilent := by
  cases request with
  | seeder key request => exact Seeder.Call.Looks.unfiled notes
  | fileStamp | setItemOrigin => trivial
  | update key change =>
    cases change with
    | setFileStamp => trivial
    | _ => exact notes.elim
  | _ => exact notes.elim

theorem watch_silent (syncer : Syncer) (pass : PassContext)
    (item : Discovered) (known : Option SharedItem)
    (stamps : List (ItemKey × FileStamp)) (report : SyncReport) :
    (syncer.watch pass item known stamps report).Only Call.IsSilent :=
  (syncer.watch_notes ..).mono fun _ => Call.Notes.silent

theorem upstreamOf_silent (syncer : Syncer) (pass : PassContext) (key : ItemKey)
    (known : SharedItem) (hash : String) :
    (syncer.upstreamOf pass key known hash).Only Call.IsSilent :=
  (syncer.upstreamOf_notes ..).mono fun _ => Call.Notes.silent

/-- The end of a recording, but for the second identity. -/
theorem recordOrigin_silent (syncer : Syncer) (key : ItemKey)
    (entry : Syncer.Recorded) (single : entry.infoHashV2 = none) :
    (syncer.recordIdentity key entry).Only Call.IsSilent := by
  unfold Syncer.recordIdentity
  dsimp only
  rw [single]
  exact ⟨trivial, fun _ => Prog.Only.proceed _ fun _ =>
    ⟨trivial, fun _ => trivial⟩⟩

/-- A rule that the silent calls keep holds through every part of a pass in
which nothing else is recorded. -/
structure KeepsSilent (protocol : Protocol Nat World Call Answer) : Prop where
  kept : ∀ {thread before request answer after},
    thread = 0 ∨ request.IsVisit → request.IsSilent →
      Performed protocol thread before request answer after →
        protocol.invariant after ∧ protocol.guarantee thread before after

theorem KeepsSilent.safe_silent {α : Type} {program : Program α}
    (keeps : KeepsSilent protocol) (silent : program.Only Call.IsSilent) :
    Safe protocol 0 (fun _ _ => True) program moment := by
  induction program generalizing moment with
  | done value => trivial
  | call request next ih =>
    intro before _ answer after performed
    obtain ⟨invariant, guarantee⟩ :=
      keeps.kept (.inl rfl) silent.1 performed
    exact ⟨invariant, guarantee, ih answer (silent.2 answer)⟩

/-- An item that is seeding has its torrent refreshed. -/
theorem KeepsSilent.safe_confirmLive (keeps : KeepsSilent protocol)
    (trusting : Trusting dictionaries protocol) (syncer : Syncer)
    (pass : PassContext) (key : ItemKey) (known : SharedItem) (hash : String)
    (reported : TorrentSummary) :
    Safe protocol 0 (fun _ _ => True)
      (syncer.confirmLive pass key known hash reported) moment := by
  apply (keeps.safe_silent (upstreamOf_silent ..)).bind
  intro upstream moment _
  apply (keeps.safe_silent ((syncer.ratioLimitOf_common ..).mono
    fun _ common => common.silent)).bind
  intro ratioLimit moment _
  apply (trusting.safe_forItem lasting_true
    (syncer.seeder.refreshAnnounce_ensures ..) trivial).bind
  intro refreshed moment _
  apply keeps.safe_silent
  split <;> exact ⟨trivial, fun _ => trivial⟩

/-- Such a rule is covered, if recording a torrent as what it is keeps it
too. -/
theorem KeepsSilent.covered (keeps : KeepsSilent protocol)
    (trusting : Trusting dictionaries protocol) {syncer : Syncer}
    (guaranteed : ∀ {thread before request answer after},
      thread = 0 ∨ request.IsVisit →
        Performed protocol thread before request answer after →
          protocol.guarantee thread before after)
    (records : ∀ pass key stamp outcome moment,
      Seeder.TrueOutcome dictionaries outcome →
        Safe protocol 0 (fun _ _ => True)
          (syncer.recordSeeded pass key stamp outcome) moment) :
    Covered syncer protocol where
  guaranteed := guaranteed
  kept := by
    rintro thread before request answer after whose (common | opening)
      performed
    · exact (keeps.kept whose common.silent performed).1
    · exact (keeps.kept whose opening.silent performed).1
  watches := by
    intro pass readings items item report moment told _
    have unread := (syncer.watch_plain pass item
      (knownItems readings.known item.key) readings.stamps report).mono
        fun _ plain => plain.1
    exact (safe_lasting (lasting_told _ _ _) unread
      (keeps.safe_silent (watch_silent ..)) told).mono fun _ _ both => both.2
  confirms := by
    intro pass readings items item known hash reported moment told _ _
    exact (safe_lasting (lasting_told _ _ _) (confirmLive_unread ..)
      (keeps.safe_confirmLive trusting ..) told).mono fun _ _ both => both.2
  seeds := by
    intro pass readings items item media paths moment told _ _
    have seeding : Safe protocol 0 (fun _ _ => True)
        (syncer.seedItem pass { item with media }
          (knownItems readings.known item.key) paths) moment := by
      have looking : Call.IsSilent (.fileStamp item.key paths.sharerr) :=
        trivial
      intro before _ stamp after performed
      obtain ⟨invariant, guarantee⟩ :=
        keeps.kept (.inl rfl) looking performed
      refine ⟨invariant, guarantee, ?_⟩
      have matching : Call.IsSilent (.catalogMatches item.key item.spec
          item.ids item.size) := trivial
      intro before _ entries after performed
      obtain ⟨invariant, guarantee⟩ :=
        keeps.kept (.inl rfl) matching performed
      refine ⟨invariant, guarantee, ?_⟩
      apply (trusting.safe_forItem lasting_true
        (syncer.seeder.seed_ensures ..) trivial).bind
      rintro seeded moment ⟨true_, -⟩
      apply Safe.proceed
      · exact fun _ _ => trivial
      · exact fun outcome same => records pass _ stamp outcome moment
          (true_ outcome same)
    exact (safe_lasting (lasting_told _ _ _) (seedItem_unread ..) seeding
      told).mono fun _ _ both => both.2

end Sync

end Sharerr
