import Sharerr.Rust.Traverse

/-!
# Torrent files and where they announce

A `.torrent` is read as its announce fields and its info dictionary, of which
only the readings below are ever taken; the info dictionary and every other
top-level field travel through a rewrite verbatim.  The parser of URLs belongs
to another crate.
-/

namespace Sharerr

/-- The info dictionary, by what is read from it. -/
structure Info where
  infoHash : String
  infoHashV2 : Option String
  name : Option String
  /-- The files of a multi-file torrent, relative to its root. -/
  files : Option (List String)
  contentLength : Nat
  isPrivate : Bool
deriving DecidableEq, Repr

structure Torrent where
  announce : Option String
  announceList : Option (List (List String))
  info : Info
deriving DecidableEq, Repr

/-- The bytes of a `.torrent`: canonical ones, or ones the parser refuses with
a reason. -/
inductive TorrentFile where
  | encoded (torrent : Torrent)
  | malformed (bytes : List UInt8) (reason : String)
deriving DecidableEq, Repr

namespace Torrent

def readFromBytes : TorrentFile → Except String Torrent
  | .encoded torrent => .ok torrent
  | .malformed _ reason => .error reason

def encode (torrent : Torrent) : TorrentFile := .encoded torrent

def isSingleFile (torrent : Torrent) : Bool := torrent.info.files.isNone

def filePaths (torrent : Torrent) : List String := torrent.info.files.getD []

/-- The announce URLs as tiers. -/
def announceTiers (torrent : Torrent) : List (List String) :=
  match torrent.announceList, torrent.announce with
  | some (tier :: tiers), _ => tier :: tiers
  | _, some announce => [[announce]]
  | _, none => []

/-- Every URL of the announce fields. -/
def announceUrls (torrent : Torrent) : List String :=
  torrent.announce.toList ++ (torrent.announceList.getD []).flatten

end Torrent

/-- The announce URLs a client reads out of the bytes. -/
def TorrentFile.announceUrls : TorrentFile → List String
  | .encoded torrent => torrent.announceUrls
  | .malformed .. => []

/-- The announce URLs one torrent carries, current first. -/
structure AnnounceSet where
  tiers : List String
  nonempty : tiers ≠ []
deriving DecidableEq, Repr

namespace AnnounceSet

def fromTiers (tiers : List String) : Option AnnounceSet :=
  if nonempty : tiers ≠ [] then some ⟨tiers, nonempty⟩ else none

def primary (announce : AnnounceSet) : String :=
  announce.tiers.head announce.nonempty

def tierList (announce : AnnounceSet) : Option (List (List String)) :=
  if announce.tiers.length ≤ 1 then none
  else some (announce.tiers.map fun url => [url])

theorem primary_mem (announce : AnnounceSet) :
    announce.primary ∈ announce.tiers :=
  List.head_mem announce.nonempty

end AnnounceSet

/-- `torrent` announcing to `announce`. -/
def Torrent.announcingTo (torrent : Torrent) (announce : AnnounceSet) :
    Torrent :=
  { torrent with
    announce := some announce.primary
    announceList := announce.tierList }

variable {announce : AnnounceSet}

theorem Torrent.mem_tiers_of_announcingTo {torrent : Torrent} {url : String}
    (member : url ∈ (torrent.announcingTo announce).announceUrls) :
    url ∈ announce.tiers := by
  simp only [Torrent.announcingTo, Torrent.announceUrls,
    AnnounceSet.tierList, List.mem_append, Option.mem_toList,
    Option.some.injEq] at member
  rcases member with same | listed
  · exact same ▸ announce.primary_mem
  · split at listed
    · cases listed
    · obtain ⟨tier, tierMember, urlMember⟩ := List.mem_flatten.mp listed
      obtain ⟨ours, oursMember, rfl⟩ := List.mem_map.mp tierMember
      rw [List.mem_singleton.mp urlMember]
      exact oursMember

def rewriteAnnounce (data : TorrentFile) (announce : AnnounceSet) :
    Except String TorrentFile := do
  let torrent ← Torrent.readFromBytes data
  pure (torrent.announcingTo announce).encode

inductive Retargeted where
  | current (torrent : Torrent)
  | updated (previous : Option String) (torrent : Torrent)
      (data : TorrentFile)
deriving DecidableEq, Repr

def Retargeted.torrent : Retargeted → Torrent
  | .current torrent => torrent
  | .updated _ torrent _ => torrent

def retargetAnnounce (data : TorrentFile) (announce : AnnounceSet) :
    Except String Retargeted := do
  let torrent ← Torrent.readFromBytes data
  if torrent.announce = some announce.primary then
    pure (.current torrent)
  else
    let retargeted := torrent.announcingTo announce
    pure (.updated torrent.announce retargeted retargeted.encode)

/-- What is retargeted parses; it is current, or its announce fields are
replaced and nothing else. -/
theorem retargetAnnounce_cases {data : TorrentFile} {outcome : Retargeted}
    (retargeted : retargetAnnounce data announce = .ok outcome) :
    ∃ torrent, data = .encoded torrent ∧
      (torrent.announce = some announce.primary ∧
          outcome = .current torrent ∨
        outcome = .updated torrent.announce (torrent.announcingTo announce)
          (torrent.announcingTo announce).encode) := by
  cases data with
  | malformed bytes reason => cases retargeted
  | encoded torrent =>
    refine ⟨torrent, rfl, ?_⟩
    obtain ⟨read, parsed, made⟩ := Rust.bind_eq_ok retargeted
    cases parsed
    split at made
    · rename_i same
      cases made
      exact .inl ⟨same, rfl⟩
    · cases made
      exact .inr rfl

def torrentFileName (infoHash : String) : String := infoHash ++ ".torrent"

/-- The `url` crate: the normal form a text parses to, and the segments of its
path. -/
structure Urls where
  parse : String → Except String String
  pathSegments : String → Option (List String)

/-- `endpoint::base_string`, of the text of a URL: no trailing slashes. -/
def baseString (base : String) : String :=
  String.ofList (base.toList.reverse.dropWhile (· = '/')).reverse

def joinPath (base path : String) : String := baseString base ++ path

def announcePath : String := "/announce"

def announceUrl (urls : Urls) (base : String) (token : Option String) :
    Except String String :=
  urls.parse (match token with
    | some token => joinPath base announcePath ++ "/" ++ token
    | none => joinPath base announcePath)

/-- The announce set of the recently held endpoints, newest first, all with
one token. -/
def announceSetFor (urls : Urls) (recent : List String)
    (token : Option String) : Except String AnnounceSet := do
  let tiers ← recent.mapM fun base => announceUrl urls base token
  match AnnounceSet.fromTiers tiers with
  | some announce => pure announce
  | none => throw ("neither tracker.advertised_host nor " ++
      "tracker.advertised_url is set — sharerr cannot guess the address " ++
      "friends reach it on")

/-- The segment after the first `announce`. -/
def segmentAfterAnnounce : List String → Option String
  | [] => none
  | segment :: segments =>
    if segment = "announce" then segments.head?
    else segmentAfterAnnounce segments

def tokenFromAnnounceUrl (urls : Urls) (url : String) : Option String :=
  (urls.pathSegments url).bind segmentAfterAnnounce

theorem AnnounceSet.tiers_of_fromTiers {tiers : List String}
    (made : fromTiers tiers = some announce) :
    announce.tiers = tiers := by
  unfold fromTiers at made
  split at made
  · cases made
    rfl
  · cases made

/-- Every URL of an announce set is built from one of the endpoints, with the
set's token. -/
theorem announceUrl_of_mem_tiers {urls : Urls} {recent : List String}
    {token : Option String} {url : String}
    (built : announceSetFor urls recent token = .ok announce)
    (member : url ∈ announce.tiers) :
    ∃ base ∈ recent, announceUrl urls base token = .ok url := by
  obtain ⟨tiers, mapped, built⟩ := Rust.bind_eq_ok built
  cases made : AnnounceSet.fromTiers tiers with
  | none =>
    rw [made] at built
    cases built
  | some set =>
    rw [made] at built
    cases built
    rw [AnnounceSet.tiers_of_fromTiers made] at member
    exact Rust.mem_of_mapM_eq_ok mapped member

/-- The primary of an announce set is on the first of the endpoints. -/
theorem primary_of_announceSetFor {urls : Urls} {recent : List String}
    {token : Option String}
    (built : announceSetFor urls recent token = .ok announce) :
    ∃ base, recent.head? = some base ∧
      announceUrl urls base token = .ok announce.primary := by
  obtain ⟨tiers, mapped, built⟩ := Rust.bind_eq_ok built
  cases made : AnnounceSet.fromTiers tiers with
  | none =>
    rw [made] at built
    cases built
  | some set =>
    rw [made] at built
    cases built
    have tiersOf := AnnounceSet.tiers_of_fromTiers made
    cases recent with
    | nil =>
      cases mapped
      exact absurd tiersOf announce.nonempty
    | cons base recent =>
      rw [List.mapM_cons] at mapped
      obtain ⟨first, firstMade, mapped⟩ := Rust.bind_eq_ok mapped
      obtain ⟨rest, _, mapped⟩ := Rust.bind_eq_ok mapped
      cases mapped
      refine ⟨base, rfl, firstMade.trans ?_⟩
      simp only [AnnounceSet.primary, tiersOf, List.head_cons]

end Sharerr
