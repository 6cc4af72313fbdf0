import Mathlib.Data.List.Induction
import Sharerr.Arr.Walks

/-!
# Whom a discovered file is for

A walk returns the files it can name of the entities carrying one of the tags.
A file gets no audience when its entity carries the plain tag, and otherwise
the friends the entity's tags name, of whom there is one at least.  The
audience is kept by file id, which the app gives to one file only.
-/

namespace Sharerr

namespace Arr

namespace Sonarr

/-- The numbering a file is named by: the lowest of the episodes that point at
it.  No episode points at file 0. -/
structure Numbers (episodes : List Episode) (fileId : Int)
    (named : Nat × Nat) : Prop where
  pointed : fileId ≠ 0
  episode : ∃ ep ∈ episodes, ep.episodeFileId = fileId ∧
    (ep.seasonNumber, ep.episodeNumber) = named
  lowest : ∀ ep ∈ episodes, ep.episodeFileId = fileId →
    rank named.1 named.2 ≤ rank ep.seasonNumber ep.episodeNumber

variable {left right : Nat × Nat} {ep : Episode} {named : Option (Nat × Nat)}

theorem rank_injective (same : rank left.1 left.2 = rank right.1 right.2) :
    left = right := by
  have parts := congrArg (fun key => (ofLex (ofLex key).2)) same
  simpa [rank] using parts

theorem Numbers.unique {episodes : List Episode} {fileId : Int}
    {left right : Nat × Nat} (one : Numbers episodes fileId left)
    (other : Numbers episodes fileId right) : left = right := by
  obtain ⟨first, firstMember, firstPoints, rfl⟩ := one.episode
  obtain ⟨second, secondMember, secondPoints, rfl⟩ := other.episode
  apply rank_injective
  apply le_antisymm
  · exact one.lowest second secondMember secondPoints
  · exact other.lowest first firstMember firstPoints

/-- What the map keeps for a file, after the episodes seen so far. -/
def Kept (episodes : List Episode) (fileId : Int) :
    Option (Nat × Nat) → Prop
  | none => fileId = 0 ∨ ∀ ep ∈ episodes, ep.episodeFileId ≠ fileId
  | some named => Numbers episodes fileId named

variable {episodes : List Episode} {fileId : Int}

theorem Kept.other (kept : Kept episodes fileId named)
    (elsewhere : fileId = 0 ∨ ep.episodeFileId ≠ fileId) :
    Kept (episodes ++ [ep]) fileId named := by
  cases named with
  | none =>
    rcases kept with zero | unpointed
    · exact Or.inl zero
    · rcases elsewhere with zero | different
      · exact Or.inl zero
      · right
        intro other member
        rcases List.mem_append.mp member with old | new
        · exact unpointed other old
        · rw [List.mem_singleton.mp new]
          exact different
  | some named =>
    have different : ep.episodeFileId ≠ fileId :=
      elsewhere.resolve_left kept.pointed
    obtain ⟨first, member, names⟩ := kept.episode
    constructor
    · exact kept.pointed
    · exact ⟨first, List.mem_append_left _ member, names⟩
    · intro other member points
      rcases List.mem_append.mp member with old | new
      · exact kept.lowest other old points
      · rw [List.mem_singleton.mp new] at points
        exact absurd points different

theorem Kept.lower (kept : Kept episodes ep.episodeFileId named)
    (pointed : ep.episodeFileId ≠ 0) :
    Kept (episodes ++ [ep]) ep.episodeFileId
      (some (Sonarr.lower (ep.seasonNumber, ep.episodeNumber) named)) := by
  have last : ep ∈ episodes ++ [ep] :=
    List.mem_append_right _ List.mem_cons_self
  cases named with
  | none =>
    have unpointed := kept.resolve_left pointed
    refine ⟨pointed, ⟨ep, last, rfl, rfl⟩, ?_⟩
    intro other member points
    rcases List.mem_append.mp member with old | new
    · exact absurd points (unpointed other old)
    · rw [List.mem_singleton.mp new]
      exact le_refl _
  | some current =>
    have below : rank (Sonarr.lower (ep.seasonNumber, ep.episodeNumber)
        (some current)).1 (Sonarr.lower (ep.seasonNumber, ep.episodeNumber)
        (some current)).2 ≤ rank ep.seasonNumber ep.episodeNumber ∧
        rank (Sonarr.lower (ep.seasonNumber, ep.episodeNumber)
        (some current)).1 (Sonarr.lower (ep.seasonNumber, ep.episodeNumber)
        (some current)).2 ≤ rank current.1 current.2 := by
      rw [Sonarr.lower]
      split
      case isTrue less => exact ⟨le_refl _, le_of_lt less⟩
      case isFalse notLess => exact ⟨le_of_not_gt notLess, le_refl _⟩
    obtain ⟨first, member, points, names⟩ := kept.episode
    constructor
    · exact pointed
    · rw [Sonarr.lower]
      split
      · exact ⟨ep, last, rfl, rfl⟩
      · exact ⟨first, List.mem_append_left _ member, points, names⟩
    · intro other otherMember otherPoints
      rcases List.mem_append.mp otherMember with old | new
      · exact below.2.trans (kept.lowest other old otherPoints)
      · rw [List.mem_singleton.mp new]
        exact below.1

theorem kept_numberingByFile (episodes : List Episode) (fileId : Int) :
    Kept episodes fileId (numberingByFile episodes fileId) := by
  induction episodes using List.reverseRecOn with
  | nil => exact Or.inr (by simp)
  | append_singleton episodes ep ih =>
    rw [numberingByFile, List.foldl_append, List.foldl_cons, List.foldl_nil]
    change Kept _ _ ((if ep.episodeFileId = 0 then numberingByFile episodes
      else Rust.insert (numberingByFile episodes) ep.episodeFileId
        (Sonarr.lower (ep.seasonNumber, ep.episodeNumber)
          (numberingByFile episodes ep.episodeFileId))) fileId)
    by_cases zero : ep.episodeFileId = 0
    · rw [if_pos zero]
      apply ih.other
      by_cases same : fileId = 0
      · exact Or.inl same
      · exact Or.inr fun points => same (points ▸ zero)
    · rw [if_neg zero]
      by_cases same : fileId = ep.episodeFileId
      · subst same
        rw [Rust.insert_same]
        exact ih.lower zero
      · rw [Rust.insert_other _ same]
        exact ih.other (Or.inr (Ne.symm same))

theorem numberingByFile_eq_some_iff {named : Nat × Nat} :
    numberingByFile episodes fileId = some named ↔
      Numbers episodes fileId named := by
  have kept := kept_numberingByFile episodes fileId
  constructor
  · intro found
    rw [found] at kept
    exact kept
  · intro numbers
    cases found : numberingByFile episodes fileId with
    | none =>
      rw [found] at kept
      obtain ⟨ep, member, points, _⟩ := numbers.episode
      rcases kept with zero | unpointed
      · exact absurd zero numbers.pointed
      · exact absurd points (unpointed ep member)
    | some other =>
      rw [found] at kept
      rw [Numbers.unique kept numbers]

end Sonarr

/-- The file a movie has: the one it carries, or else the first that is listed
for it. -/
def Radarr.HasFile (server : Server) (movie : Movie) (file : MovieFile) :
    Prop :=
  movie.movieFile = some file ∨
    movie.movieFile = none ∧ movie.hasFile = true ∧
      ∃ rest, server.moviefile movie.id = .ok (file :: rest)

/-- The container listed under an id, the last of them if there are several. -/
def Listed {Container : Type} (containerId : Container → Int)
    (containers : List Container) (id : Int) (container : Container) : Prop :=
  ∃ earlier later, containers = earlier ++ container :: later ∧
    containerId container = id ∧ ∀ other ∈ later, containerId other ≠ id

section Names

variable (hostStr : String → Option String) (client : ArrClient)
  (server : Server)

def WalksLikeRadarr : Prop :=
  client.kind = .radarr ∨ client.kind = .whisparr ∧
    ∃ status, server.systemStatus = .ok status ∧
      whisparrWalksLikeRadarr status.version = true

def WalksLikeSonarr : Prop :=
  client.kind = .sonarr ∨ client.kind = .whisparr ∧
    ∃ status, server.systemStatus = .ok status ∧
      whisparrWalksLikeRadarr status.version = false

/-- The files of the app's library that can be named, each with the tags of
its entity.  A series in an alternate order has none. -/
inductive Names : List Int → Discovered → Prop where
  | episode {shows : List Series} {show' : Series}
      {files : List EpisodeFile} {file : EpisodeFile}
      {episodes : List Episode} {season episode : Nat} :
      WalksLikeSonarr client server →
      server.series = .ok shows → show' ∈ shows →
      show'.usesAlternateOrder = false →
      server.episodefile show'.id = .ok files → file ∈ files →
      server.episode show'.id = .ok episodes →
      Sonarr.Numbers episodes file.id (season, episode) →
      Names show'.tags (Sonarr.item client.kind show' file season episode)
  | movie {movies : List Movie} {movie : Movie} {file : MovieFile} :
      WalksLikeRadarr client server →
      server.movie = .ok movies → movie ∈ movies →
      Radarr.HasFile server movie file →
      Names movie.tags (Radarr.item client.kind movie file)
  | track {artists : List Artist} {artist : Artist} {albums : List Album}
      {album : Album} {files : List TrackFile} {file : TrackFile}
      {tracks : List Track} :
      client.kind = .lidarr →
      server.artist = .ok artists → artist ∈ artists →
      server.album artist.id = .ok albums →
      server.trackfile artist.id = .ok files → file ∈ files →
      server.track artist.id = .ok tracks →
      Listed Album.id albums file.albumId album →
      Names artist.tags (Lidarr.item artist album file
        (Lidarr.trackNumber (Lidarr.numbersByFile tracks file.id)))
  | book {authors : List Author} {author : Author} {books : List Book}
      {book : Book} {files : List BookFile} {file : BookFile} :
      client.kind = .readarr →
      server.author = .ok authors → author ∈ authors →
      server.book author.id = .ok books →
      server.bookfile author.id = .ok files → file ∈ files →
      Listed Book.id books file.bookId book →
      Names author.tags (Readarr.item
        (Readarr.usesHardcover hostStr server) author book file)

end Names

variable {Entity Payload Container : Type} {entities : List Entity}
  {entity : Entity} {fetch : Entity → Answer Payload}
  {fetched : List (Entity × Payload)} {tagIds : List Int}
  {container : Container} {containerId : Container → Int}
  {containers : List Container} {id fileId : Int} {friend : String}
  {friends : List (Int × String)} {walked : Walked}

theorem mem_fetchTagged_iff [Tagged Entity]
    (ended : fetchTagged entities tagIds fetch = .ok fetched)
    {payload : Payload} :
    (entity, payload) ∈ fetched ↔
      entity ∈ entities ∧ carriesAny tagIds (tags entity) = true ∧
        fetch entity = .ok payload := by
  obtain ⟨payloads, mapped, ended⟩ := Rust.bind_eq_ok ended
  cases ended
  rw [Rust.mem_zip_mapM_iff mapped, List.mem_filter, and_assoc]

theorem fetched_of_tagged [Tagged Entity]
    (ended : fetchTagged entities tagIds fetch = .ok fetched)
    (member : entity ∈ entities)
    (carries : carriesAny tagIds (tags entity) = true) :
    ∃ payload, fetch entity = .ok payload := by
  obtain ⟨payloads, mapped, _⟩ := Rust.bind_eq_ok ended
  exact Rust.ok_of_mem_of_mapM mapped (List.mem_filter.mpr ⟨member, carries⟩)

theorem listed_iff :
    Rust.collected (containers.map fun container =>
        (containerId container, container)) id = some container ↔
      Listed containerId containers id container := by
  rw [Rust.collected, ← List.map_reverse, List.find?_map, Option.map_map]
  simp only [Option.map_eq_some_iff, Function.comp_def,
    List.find?_eq_some_iff_append, exists_eq_right, decide_eq_true_eq]
  constructor
  · intro found
    obtain ⟨named, later, earlier, split, absent⟩ := found
    have forward := congrArg List.reverse split
    simp only [List.reverse_reverse, List.reverse_append, List.reverse_cons,
      List.append_assoc, List.singleton_append] at forward
    refine ⟨earlier.reverse, later.reverse, forward, named, ?_⟩
    intro other member
    simpa using absent other (List.mem_reverse.mp member)
  · intro listed
    obtain ⟨earlier, later, rfl, named, absent⟩ := listed
    refine ⟨named, later.reverse, earlier.reverse, by simp, ?_⟩
    intro other member
    simpa using absent other (List.mem_reverse.mp member)

theorem mem_joinByParent_iff {File : Type} {files : List File}
    {fileParent : File → Int} {file : File} :
    (container, file) ∈ joinByParent containers files containerId fileParent ↔
      file ∈ files ∧
        Listed containerId containers (fileParent file) container := by
  simp only [joinByParent, List.mem_filterMap, Option.map_eq_some_iff,
    Prod.mk.injEq, listed_iff]
  constructor
  · intro found
    obtain ⟨other, member, _, listed, rfl, rfl⟩ := found
    exact ⟨member, listed⟩
  · intro found
    exact ⟨file, found.1, container, found.2, rfl, rfl⟩

section Walks

variable {hostStr : String → Option String} {client : ArrClient}
  {server : Server} {tagIds : List Int} {walked : Walked}
  {entityTags : List Int} {item : Discovered}

theorem WalksLikeSonarr.not_radarr (sonarr : WalksLikeSonarr client server) :
    ¬ WalksLikeRadarr client server := by
  intro radarr
  rcases sonarr with kind | ⟨kind, status, asked, before⟩
  · rcases radarr with other | ⟨other, _⟩
    · exact absurd (kind.symm.trans other) (by decide)
    · exact absurd (kind.symm.trans other) (by decide)
  · rcases radarr with other | ⟨_, status', asked', after⟩
    · exact absurd (kind.symm.trans other) (by decide)
    · rw [asked] at asked'
      cases asked'
      rw [before] at after
      cases after

variable {kind : MediaSource}

theorem WalksLikeSonarr.only (sonarr : WalksLikeSonarr client server)
    (same : client.kind = kind) :
    kind = .sonarr ∨ kind = .whisparr := by
  rw [← same]
  exact sonarr.imp_right And.left

theorem WalksLikeRadarr.only (radarr : WalksLikeRadarr client server)
    (same : client.kind = kind) :
    kind = .radarr ∨ kind = .whisparr := by
  rw [← same]
  exact radarr.imp_right And.left

theorem not_isEmpty {File : Type} {files : List File} {file : File}
    (member : file ∈ files) : ¬ files.isEmpty = true := by
  rw [List.isEmpty_iff]
  exact List.ne_nil_of_mem member

theorem Sonarr.fetchSeries_eq_ok {series : Series} {files : List EpisodeFile}
    {episodes : List Episode}
    (ended : fetchSeries server series = .ok (files, episodes)) :
    server.episodefile series.id = .ok files ∧
      server.episode series.id = .ok episodes := by
  obtain ⟨_, filesOk, ended⟩ := Rust.bind_eq_ok ended
  obtain ⟨_, episodesOk, ended⟩ := Rust.bind_eq_ok ended
  cases ended
  exact ⟨filesOk, episodesOk⟩

theorem mem_discover_sonarr_iff (sonarr : WalksLikeSonarr client server)
    (ended : Sonarr.discover client server tagIds = .ok walked) :
    (item, entityTags) ∈ walked ↔ carriesAny tagIds entityTags = true ∧
      Names hostStr client server entityTags item := by
  obtain ⟨shows, asked, ended⟩ := Rust.bind_eq_ok ended
  obtain ⟨fetched, paired, ended⟩ := Rust.bind_eq_ok ended
  cases ended
  rw [List.mem_flatMap]
  constructor
  · intro found
    obtain ⟨⟨show', files, episodes⟩, member, found⟩ := found
    obtain ⟨kept, carries, payload⟩ := (mem_fetchTagged_iff paired).mp member
    obtain ⟨filesOk, episodesOk⟩ := Sonarr.fetchSeries_eq_ok payload
    obtain ⟨listed, official⟩ := List.mem_filter.mp kept
    obtain ⟨_, found⟩ := List.mem_ite_nil_left.mp found
    obtain ⟨file, fileMember, made⟩ := List.mem_filterMap.mp found
    obtain ⟨⟨season, episode⟩, numbered, same⟩ :=
      Option.map_eq_some_iff.mp made
    cases same
    refine ⟨carries, ?_⟩
    have official : show'.usesAlternateOrder = false := by
      simpa [carries] using official
    exact .episode sonarr asked listed official filesOk fileMember episodesOk
      (Sonarr.numberingByFile_eq_some_iff.mp numbered)
  · intro found
    obtain ⟨carries, names⟩ := found
    cases names with
    | @episode shows' show' files file episodes season episode _ asked' listed
        official filesOk fileMember episodesOk numbers =>
        rw [asked] at asked'
        cases asked'
        refine ⟨(show', files, episodes), ?_, ?_⟩
        · apply (mem_fetchTagged_iff paired).mpr
          refine ⟨List.mem_filter.mpr ⟨listed, ?_⟩, carries, ?_⟩
          · simp [official]
          · simp [Sonarr.fetchSeries, filesOk, episodesOk, pure, Except.pure,
              bind, Except.bind]
        · apply List.mem_ite_nil_left.mpr
          refine ⟨not_isEmpty fileMember, ?_⟩
          apply List.mem_filterMap.mpr
          refine ⟨file, fileMember, ?_⟩
          rw [Sonarr.numberingByFile_eq_some_iff.mpr numbers]
          rfl
    | movie radarr => exact absurd radarr sonarr.not_radarr
    | track lidarr => exact absurd (sonarr.only lidarr) (by decide)
    | book readarr => exact absurd (sonarr.only readarr) (by decide)

theorem Radarr.movieFile_eq_ok {movie : Movie} {fetched : Option MovieFile}
    (ended : movieFile server movie = .ok fetched) {file : MovieFile} :
    movie.movieFile.or fetched = some file ↔ HasFile server movie file := by
  rw [movieFile] at ended
  cases embedded : movie.movieFile with
  | some own =>
    simp [HasFile, embedded]
  | none =>
    cases has : movie.hasFile with
    | false =>
      simp [embedded, has, pure, Except.pure] at ended
      simp [HasFile, embedded, has, ← ended]
    | true =>
      simp only [embedded, has, Option.isSome_none, Bool.not_true,
        Bool.or_self, Bool.false_eq_true, if_false] at ended
      obtain ⟨files, listed, ended⟩ := Rust.bind_eq_ok ended
      cases ended
      simp only [HasFile, embedded, has, listed, Option.none_or,
        List.head?_eq_some_iff, Except.ok.injEq, true_and, reduceCtorEq,
        false_or]

theorem mem_discover_radarr_iff (radarr : WalksLikeRadarr client server)
    (ended : Radarr.discover client server tagIds = .ok walked) :
    (item, entityTags) ∈ walked ↔ carriesAny tagIds entityTags = true ∧
      Names hostStr client server entityTags item := by
  obtain ⟨movies, asked, ended⟩ := Rust.bind_eq_ok ended
  obtain ⟨fetched, paired, ended⟩ := Rust.bind_eq_ok ended
  cases ended
  rw [List.mem_filterMap]
  constructor
  · intro found
    obtain ⟨⟨movie, payload⟩, member, found⟩ := found
    obtain ⟨listed, carries, asked'⟩ := (mem_fetchTagged_iff paired).mp member
    obtain ⟨file, chosen, same⟩ := Option.map_eq_some_iff.mp found
    cases same
    refine ⟨carries, ?_⟩
    exact .movie radarr asked listed
      ((Radarr.movieFile_eq_ok asked').mp chosen)
  · intro found
    obtain ⟨carries, names⟩ := found
    cases names with
    | episode sonarr => exact absurd radarr sonarr.not_radarr
    | @movie movies' movie file _ asked' listed has =>
      rw [asked] at asked'
      cases asked'
      obtain ⟨payload, asked'⟩ := fetched_of_tagged paired listed carries
      refine ⟨(movie, payload), ?_, ?_⟩
      · exact (mem_fetchTagged_iff paired).mpr ⟨listed, carries, asked'⟩
      · apply Option.map_eq_some_iff.mpr
        exact ⟨file, (Radarr.movieFile_eq_ok asked').mpr has, rfl⟩
    | track lidarr => exact absurd (radarr.only lidarr) (by decide)
    | book readarr => exact absurd (radarr.only readarr) (by decide)

theorem Lidarr.fetchArtist_eq_ok {artist : Artist} {albums : List Album}
    {files : List TrackFile} {tracks : List Track}
    (ended : fetchArtist server artist = .ok (albums, files, tracks)) :
    server.album artist.id = .ok albums ∧
      server.trackfile artist.id = .ok files ∧
      server.track artist.id = .ok tracks := by
  obtain ⟨_, albumsOk, ended⟩ := Rust.bind_eq_ok ended
  obtain ⟨_, filesOk, ended⟩ := Rust.bind_eq_ok ended
  obtain ⟨_, tracksOk, ended⟩ := Rust.bind_eq_ok ended
  cases ended
  exact ⟨albumsOk, filesOk, tracksOk⟩

theorem mem_discover_lidarr_iff (lidarr : client.kind = .lidarr)
    (ended : Lidarr.discover server tagIds = .ok walked) :
    (item, entityTags) ∈ walked ↔ carriesAny tagIds entityTags = true ∧
      Names hostStr client server entityTags item := by
  obtain ⟨artists, asked, ended⟩ := Rust.bind_eq_ok ended
  obtain ⟨fetched, paired, ended⟩ := Rust.bind_eq_ok ended
  cases ended
  rw [List.mem_flatMap]
  constructor
  · intro found
    obtain ⟨⟨artist, albums, files, tracks⟩, member, found⟩ := found
    obtain ⟨listed, carries, payload⟩ := (mem_fetchTagged_iff paired).mp member
    obtain ⟨albumsOk, filesOk, tracksOk⟩ := Lidarr.fetchArtist_eq_ok payload
    obtain ⟨_, found⟩ := List.mem_ite_nil_left.mp found
    obtain ⟨⟨album, file⟩, joined, same⟩ := List.mem_map.mp found
    obtain ⟨fileMember, parent⟩ := mem_joinByParent_iff.mp joined
    cases same
    exact ⟨carries, .track lidarr asked listed albumsOk filesOk fileMember
      tracksOk parent⟩
  · intro found
    obtain ⟨carries, names⟩ := found
    cases names with
    | episode sonarr => exact absurd (sonarr.only lidarr) (by decide)
    | movie radarr => exact absurd (radarr.only lidarr) (by decide)
    | @track artists' artist albums album files file tracks _ asked' listed
        albumsOk filesOk fileMember tracksOk parent =>
        rw [asked] at asked'
        cases asked'
        refine ⟨(artist, albums, files, tracks), ?_, ?_⟩
        · apply (mem_fetchTagged_iff paired).mpr
          refine ⟨listed, carries, ?_⟩
          simp [Lidarr.fetchArtist, albumsOk, filesOk, tracksOk, pure,
            Except.pure, bind, Except.bind]
        · apply List.mem_ite_nil_left.mpr
          refine ⟨not_isEmpty fileMember, ?_⟩
          exact List.mem_map.mpr
            ⟨(album, file), mem_joinByParent_iff.mpr ⟨fileMember, parent⟩, rfl⟩
    | book readarr => exact absurd (lidarr.symm.trans readarr) (by decide)

theorem Readarr.fetchAuthor_eq_ok {author : Author} {books : List Book}
    {files : List BookFile}
    (ended : fetchAuthor server author = .ok (books, files)) :
    server.book author.id = .ok books ∧
      server.bookfile author.id = .ok files := by
  obtain ⟨_, booksOk, ended⟩ := Rust.bind_eq_ok ended
  obtain ⟨_, filesOk, ended⟩ := Rust.bind_eq_ok ended
  cases ended
  exact ⟨booksOk, filesOk⟩

theorem Readarr.discover_eq_ok
    (ended : discover hostStr server tagIds = .ok walked) :
    ∃ authors fetched, server.author = .ok authors ∧
      fetchTagged authors tagIds (fetchAuthor server) = .ok fetched ∧
      walked = fetched.flatMap fun (author, books, files) =>
        if files.isEmpty then []
        else
          (joinByParent books files Book.id BookFile.bookId).map
            fun (book, file) =>
              (Readarr.item (usesHardcover hostStr server) author book file,
                author.tags) := by
  obtain ⟨authors, asked, ended⟩ := Rust.bind_eq_ok ended
  obtain ⟨fetched, paired, ended⟩ := Rust.bind_eq_ok ended
  refine ⟨authors, fetched, asked, paired, ?_⟩
  cases fetched with
  | nil =>
    cases ended
    rfl
  | cons first rest =>
    cases ended
    rfl

theorem mem_discover_readarr_iff (readarr : client.kind = .readarr)
    (ended : Readarr.discover hostStr server tagIds = .ok walked) :
    (item, entityTags) ∈ walked ↔ carriesAny tagIds entityTags = true ∧
      Names hostStr client server entityTags item := by
  obtain ⟨authors, fetched, asked, paired, rfl⟩ :=
    Readarr.discover_eq_ok ended
  rw [List.mem_flatMap]
  constructor
  · intro found
    obtain ⟨⟨author, books, files⟩, member, found⟩ := found
    obtain ⟨listed, carries, payload⟩ := (mem_fetchTagged_iff paired).mp member
    obtain ⟨booksOk, filesOk⟩ := Readarr.fetchAuthor_eq_ok payload
    obtain ⟨_, found⟩ := List.mem_ite_nil_left.mp found
    obtain ⟨⟨book, file⟩, joined, same⟩ := List.mem_map.mp found
    obtain ⟨fileMember, parent⟩ := mem_joinByParent_iff.mp joined
    cases same
    exact ⟨carries, .book readarr asked listed booksOk filesOk fileMember
      parent⟩
  · intro found
    obtain ⟨carries, names⟩ := found
    cases names with
    | episode sonarr => exact absurd (sonarr.only readarr) (by decide)
    | movie radarr => exact absurd (radarr.only readarr) (by decide)
    | track lidarr => exact absurd (lidarr.symm.trans readarr) (by decide)
    | @book authors' author books book files file _ asked' listed booksOk
        filesOk fileMember parent =>
        rw [asked] at asked'
        cases asked'
        refine ⟨(author, books, files), ?_, ?_⟩
        · apply (mem_fetchTagged_iff paired).mpr
          refine ⟨listed, carries, ?_⟩
          simp [Readarr.fetchAuthor, booksOk, filesOk, pure, Except.pure,
            bind, Except.bind]
        · apply List.mem_ite_nil_left.mpr
          refine ⟨not_isEmpty fileMember, ?_⟩
          exact List.mem_map.mpr
            ⟨(book, file), mem_joinByParent_iff.mpr ⟨fileMember, parent⟩, rfl⟩

/-- A walk that ends returns what can be named of the entities carrying one of
the tags, and nothing else. -/
theorem mem_walk_iff (ended : client.walk hostStr server tagIds = .ok walked) :
    (item, entityTags) ∈ walked ↔ carriesAny tagIds entityTags = true ∧
      Names hostStr client server entityTags item := by
  rw [ArrClient.walk] at ended
  split at ended
  case h_1 kind => exact mem_discover_sonarr_iff (Or.inl kind) ended
  case h_2 kind =>
      obtain ⟨status, asked, ended⟩ := Rust.bind_eq_ok ended
      cases version : whisparrWalksLikeRadarr status.version with
      | true =>
        rw [version] at ended
        exact mem_discover_radarr_iff
          (Or.inr ⟨kind, status, asked, version⟩) ended
      | false =>
        rw [version] at ended
        exact mem_discover_sonarr_iff
          (Or.inr ⟨kind, status, asked, version⟩) ended
  case h_3 kind => exact mem_discover_radarr_iff (Or.inl kind) ended
  case h_4 kind => exact mem_discover_lidarr_iff kind ended
  case h_5 kind => exact mem_discover_readarr_iff kind ended
  case h_6 => cases ended

end Walks

/-- The entry a walked file makes in the audience. -/
def entry (plain : Int) (friends : List (Int × String))
    (walked : Discovered × List Int) : Option (Int × List String) :=
  if walked.2.contains plain then none
  else some (walked.1.fileId, friendsNamed friends walked.2)

theorem foldl_record (plain : Int) (friends : List (Int × String))
    (walked : Walked) :
    walked.foldl (TaggedFiles.record plain friends) TaggedFiles.empty =
      ⟨walked.map (·.1),
        Rust.collected (walked.filterMap (entry plain friends))⟩ := by
  induction walked using List.reverseRecOn with
  | nil => rfl
  | append_singleton walked next ih =>
    rw [List.foldl_append, ih, List.foldl_cons, List.foldl_nil,
      List.map_append, List.filterMap_append]
    by_cases plainly : plain ∈ next.2
    · simp [TaggedFiles.record, entry, plainly]
    · simp [TaggedFiles.record, entry, plainly, Rust.collected_concat]

/-- A label of the tag list that names a friend and is among the entity's
tags. -/
def CarriesFor (tags : List Tag) (tagLabel : String) (entityTags : List Int)
    (friend : String) : Prop :=
  ∃ tag ∈ tags, tag.id ∈ entityTags ∧ friendOf tagLabel tag.label = some friend

/-- An entity is shared by the plain tag, or by one that names a friend. -/
def Shares (tags : List Tag) (tagLabel : String) (plain : Int)
    (entityTags : List Int) : Prop :=
  plain ∈ entityTags ∨ ∃ friend, CarriesFor tags tagLabel entityTags friend

variable {tags : List Tag} {tagLabel : String} {plain : Int}
  {entityTags : List Int}

theorem mem_friendTags_iff :
    (id, friend) ∈ friendTags tags tagLabel ↔
      ∃ tag ∈ tags,
        tag.id = id ∧ friendOf tagLabel tag.label = some friend := by
  simp only [friendTags, List.mem_filterMap, Option.map_eq_some_iff,
    Prod.mk.injEq]
  constructor
  · intro found
    obtain ⟨tag, listed, _, names, rfl, rfl⟩ := found
    exact ⟨tag, listed, rfl, names⟩
  · intro found
    obtain ⟨tag, listed, rfl, names⟩ := found
    exact ⟨tag, listed, friend, names, rfl, rfl⟩

theorem mem_friendsNamed_iff :
    friend ∈ friendsNamed (friendTags tags tagLabel) entityTags ↔
      CarriesFor tags tagLabel entityTags friend := by
  simp only [friendsNamed, List.mem_map, List.mem_filter, List.contains_iff_mem]
  constructor
  · intro found
    obtain ⟨⟨id, name⟩, ⟨member, carried⟩, rfl⟩ := found
    obtain ⟨tag, listed, rfl, names⟩ := mem_friendTags_iff.mp member
    exact ⟨tag, listed, carried, names⟩
  · intro carries
    obtain ⟨tag, listed, carried, names⟩ := carries
    exact ⟨(tag.id, friend),
      ⟨mem_friendTags_iff.mpr ⟨tag, listed, rfl, names⟩, carried⟩, rfl⟩

/-- The tags a walk is asked for are the ones that share an entity. -/
theorem carriesAny_iff :
    carriesAny (plain :: (friendTags tags tagLabel).map (·.1)) entityTags =
      true ↔ Shares tags tagLabel plain entityTags := by
  simp only [carriesAny, List.any_eq_true, List.contains_iff_mem]
  constructor
  · intro found
    obtain ⟨id, carried, asked⟩ := found
    rcases List.mem_cons.mp asked with rfl | named
    · exact Or.inl carried
    · obtain ⟨⟨_, friend⟩, member, rfl⟩ := List.mem_map.mp named
      obtain ⟨tag, listed, rfl, names⟩ := mem_friendTags_iff.mp member
      exact Or.inr ⟨friend, tag, listed, carried, names⟩
  · intro shares
    rcases shares with carried | ⟨friend, tag, listed, carried, names⟩
    · exact ⟨plain, carried, List.mem_cons_self⟩
    · refine ⟨tag.id, carried, List.mem_cons_of_mem _ ?_⟩
      exact List.mem_map.mpr ⟨(tag.id, friend),
        mem_friendTags_iff.mpr ⟨tag, listed, rfl, names⟩, rfl⟩

section Exact

variable (hostStr : String → Option String) (client : ArrClient)
  (server : Server) (tags : List Tag) (tagLabel : String) (plain : Int)

/-- A file that can be named, of an entity that is shared. -/
def Offers (entityTags : List Int) (item : Discovered) : Prop :=
  Shares tags tagLabel plain entityTags ∧
    Names hostStr client server entityTags item

/-- No shared entity with other tags has a file of the same id. -/
def Sole (entityTags : List Int) (item : Discovered) : Prop :=
  ∀ otherTags other,
    Offers hostStr client server tags tagLabel plain otherTags other →
      other.fileId = item.fileId → otherTags = entityTags

/-- What discovery returns is what is offered, each file for whom the tags of
its entity say. -/
structure AudienceExact (found : TaggedFiles) : Prop where
  returned : ∀ item, item ∈ found.items ↔
    ∃ entityTags,
      Offers hostStr client server tags tagLabel plain entityTags item
  everyone : ∀ entityTags item,
    Offers hostStr client server tags tagLabel plain entityTags item →
    Sole hostStr client server tags tagLabel plain entityTags item →
      (found.audience item.fileId = none ↔ plain ∈ entityTags)
  friends : ∀ entityTags item,
    Offers hostStr client server tags tagLabel plain entityTags item →
    Sole hostStr client server tags tagLabel plain entityTags item →
      ∀ names, found.audience item.fileId = some names →
        ∀ friend, friend ∈ names ↔
          CarriesFor tags tagLabel entityTags friend
  someone : ∀ fileId, found.audience fileId ≠ some []

end Exact

theorem audience_eq_none_iff :
    Rust.collected (walked.filterMap (entry plain friends)) fileId = none ↔
      ∀ item entityTags, (item, entityTags) ∈ walked →
        item.fileId = fileId → plain ∈ entityTags := by
  rw [Rust.collected_eq_none_iff]
  constructor
  · intro absent item entityTags member same
    by_contra without
    apply absent (item.fileId, friendsNamed friends entityTags) _ same
    refine List.mem_filterMap.mpr ⟨(item, entityTags), member, ?_⟩
    simp [entry, without]
  · intro plainly pair member same
    obtain ⟨⟨item, entityTags⟩, walkedMember, made⟩ :=
      List.mem_filterMap.mp member
    rw [entry] at made
    split at made
    case isTrue => cases made
    case isFalse without =>
        cases made
        exact without (by simpa using plainly item entityTags walkedMember same)

theorem of_audience_eq_some {names : List String}
    (found : Rust.collected (walked.filterMap (entry plain friends)) fileId =
      some names) :
    ∃ item entityTags, (item, entityTags) ∈ walked ∧ item.fileId = fileId ∧
      plain ∉ entityTags ∧ names = friendsNamed friends entityTags := by
  have member := Rust.mem_of_collected_eq_some found
  obtain ⟨⟨item, entityTags⟩, walkedMember, made⟩ :=
    List.mem_filterMap.mp member
  rw [entry] at made
  split at made
  case isTrue => cases made
  case isFalse without =>
      cases made
      exact ⟨item, entityTags, walkedMember, rfl, by simpa using without, rfl⟩

/-- An entity without the plain tag is only walked for a friend's tag. -/
theorem friendsNamed_ne_nil (shares : Shares tags tagLabel plain entityTags)
    (without : plain ∉ entityTags) :
    friendsNamed (friendTags tags tagLabel) entityTags ≠ [] := by
  obtain ⟨friend, carries⟩ := shares.resolve_left without
  exact List.ne_nil_of_mem (mem_friendsNamed_iff.mpr carries)

/-- Discovery returns the files that can be named of the entities the tags
share, and an audience that is exact. -/
theorem discoverWithAudience_exact (hostStr : String → Option String)
    (client : ArrClient) (server : Server) (tagLabel : String)
    (found : TaggedFiles)
    (ended : client.discoverWithAudience hostStr server tagLabel =
      .ok found) :
    ∃ tags plain, server.tag = .ok tags ∧
      findTag client.kind tags tagLabel = .ok plain ∧
      AudienceExact hostStr client server tags tagLabel plain found := by
  obtain ⟨tags, asked, ended⟩ := Rust.bind_eq_ok ended
  obtain ⟨plain, chosen, ended⟩ := Rust.bind_eq_ok ended
  obtain ⟨walked, walk, ended⟩ := Rust.bind_eq_ok ended
  have offered : ∀ item entityTags, (item, entityTags) ∈ walked ↔
      Offers hostStr client server tags tagLabel plain entityTags item := by
    intro item entityTags
    rw [mem_walk_iff walk, carriesAny_iff, Offers]
  rw [foldl_record] at ended
  cases ended
  refine ⟨tags, plain, asked, chosen, ?_, ?_, ?_, ?_⟩
  · intro item
    constructor
    · intro member
      obtain ⟨⟨_, entityTags⟩, walkedMember, rfl⟩ := List.mem_map.mp member
      exact ⟨entityTags, (offered _ _).mp walkedMember⟩
    · intro offers
      obtain ⟨entityTags, offers⟩ := offers
      exact List.mem_map.mpr ⟨_, (offered _ _).mpr offers, rfl⟩
  · intro entityTags item offers sole
    rw [audience_eq_none_iff]
    constructor
    · intro plainly
      exact plainly item entityTags ((offered _ _).mpr offers) rfl
    · intro plainly other otherTags member same
      rw [sole otherTags other ((offered _ _).mp member) same]
      exact plainly
  · intro entityTags item offers sole names named friend
    obtain ⟨other, otherTags, member, same, _, rfl⟩ :=
      of_audience_eq_some named
    rw [sole otherTags other ((offered _ _).mp member) same]
    exact mem_friendsNamed_iff
  · intro fileId empty
    obtain ⟨other, otherTags, member, _, without, none⟩ :=
      of_audience_eq_some empty
    exact friendsNamed_ne_nil ((offered _ _).mp member).1 without none.symm

/-- A server that lists nothing and knows two tags. -/
def quiet : Server where
  tag := .ok [⟨1, "sharerr"⟩, ⟨2, "sharerr-alice"⟩]
  systemStatus := .ok ⟨""⟩
  series := .ok []
  episodefile := fun _ => .ok []
  episode := fun _ => .ok []
  movie := .ok []
  moviefile := fun _ => .ok []
  artist := .ok []
  album := fun _ => .ok []
  trackfile := fun _ => .ok []
  track := fun _ => .ok []
  author := .ok []
  book := fun _ => .ok []
  bookfile := fun _ => .ok []
  developmentConfig := .ok ⟨none⟩

def film (id fileId : Int) (tags : List Int) : Movie where
  id := id
  title := "Film"
  year := none
  tmdbId := none
  imdbId := none
  tags := tags
  hasFile := true
  movieFile := some ⟨fileId, "/films/film.mkv", 1, none, none, none⟩
  itemType := none
  studioTitle := none
  releaseDate := none

def radarr : ArrClient := ⟨.radarr, by decide⟩

def sonarr : ArrClient := ⟨.sonarr, by decide⟩

/-- One film for everyone, and one for a friend. -/
def twoFilms : Server :=
  { quiet with movie := .ok [film 1 7 [1], film 2 8 [2]] }

theorem two_films_exact :
    ∃ found, radarr.discoverWithAudience (fun _ => none) twoFilms "sharerr" =
        .ok found ∧
      found.audience 7 = none ∧ found.audience 8 = some ["alice"] ∧
      ∃ tags plain, twoFilms.tag = .ok tags ∧
        findTag .radarr tags "sharerr" = .ok plain ∧
        AudienceExact (fun _ => none) radarr twoFilms tags "sharerr" plain
          found := by
  obtain ⟨found, ended, report⟩ := Rust.of_toOption_map
    (show ((radarr.discoverWithAudience (fun _ => none) twoFilms "sharerr").map
        fun found => (found.audience 7, found.audience 8)).toOption =
      some (none, some ["alice"]) by decide +kernel)
  have everyone := congrArg Prod.fst report
  have friends := congrArg Prod.snd report
  exact ⟨found, ended, everyone, friends,
    discoverWithAudience_exact (fun _ => none) radarr twoFilms "sharerr" found
      ended⟩

def series : Series := ⟨5, "Series", none, none, none, [1], none⟩

def file : EpisodeFile := ⟨7, "/tv/episode.mkv", 1, none, none⟩

/-- A series with a file that no episode points at. -/
def unlinked : Server :=
  { quiet with
    series := .ok [series]
    episodefile := fun _ => .ok [file] }

/-- Two films for which the server lists one file id. -/
def oneId : Server :=
  { quiet with movie := .ok [film 1 7 [1], film 2 7 [2]] }

/-- A file no episode points at is not returned, for all that its series
carries the plain tag; and of two films with one file id the one that carries
the plain tag gets the other's audience. -/
theorem unlinked_dropped_and_one_id :
    (1 ∈ series.tags ∧ series.usesAlternateOrder = false ∧
      (unlinked.episodefile series.id).toOption = some [file] ∧
      ∃ found, sonarr.discoverWithAudience (fun _ => none) unlinked
          "sharerr" = .ok found ∧ found.items = []) ∧
    ∃ found, radarr.discoverWithAudience (fun _ => none) oneId "sharerr" =
        .ok found ∧
      Radarr.item .radarr (film 1 7 [1]) ⟨7, "/films/film.mkv", 1, none, none,
        none⟩ ∈ found.items ∧ found.audience 7 = some ["alice"] := by
  constructor
  · refine ⟨by decide, by decide, rfl, ?_⟩
    exact Rust.of_toOption_map (by decide +kernel)
  · obtain ⟨found, ended, report⟩ := Rust.of_toOption_map
      (show ((radarr.discoverWithAudience (fun _ => none) oneId "sharerr").map
          fun found => (found.items, found.audience 7)).toOption =
        some ([Radarr.item .radarr (film 1 7 [1]) ⟨7, "/films/film.mkv", 1,
            none, none, none⟩,
          Radarr.item .radarr (film 2 7 [2]) ⟨7, "/films/film.mkv", 1, none,
            none, none⟩], some ["alice"]) by decide +kernel)
    have items := congrArg Prod.fst report
    have audience := congrArg Prod.snd report
    refine ⟨found, ended, ?_, audience⟩
    rw [show found.items = _ from items]
    exact List.mem_cons_self

end Arr

end Sharerr
