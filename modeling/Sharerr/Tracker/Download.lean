import Sharerr.Items.Table
import Sharerr.Rust.Path
import Sharerr.Torrent.Metainfo
import Sharerr.Tracker.Admission

/-!
# Serving a `.torrent`

The sync loop writes one file for each torrent and every requester is served
from it.  A request that names an active friend gets the announce URLs
rewritten to carry that friend's own token; where this cannot be done the file
goes out as it was written.
-/

namespace Sharerr

namespace Tracker

def hexValue (character : Char) : Option Nat :=
  if '0' ≤ character ∧ character ≤ '9' then
    some (character.toNat - '0'.toNat)
  else if 'a' ≤ character ∧ character ≤ 'f' then
    some (character.toNat - 'a'.toNat + 10)
  else if 'A' ≤ character ∧ character ≤ 'F' then
    some (character.toNat - 'A'.toNat + 10)
  else none

def hexDigit (value : Nat) : Char :=
  if value < 10 then Char.ofNat ('0'.toNat + value)
  else Char.ofNat ('a'.toNat + value - 10)

def hashLen : Nat := 20

def hexPairs : List Char → Option Bytes
  | [] => some []
  | [_] => none
  | high :: low :: rest => do
      let value := (← hexValue high) * 16 + (← hexValue low)
      pure (UInt8.ofNat value :: (← hexPairs rest))

def infoHashFromHex (raw : String) : Option Bytes :=
  if raw.utf8ByteSize = 2 * hashLen then hexPairs raw.toList else none

/-- `hex::encode`. -/
def hexEncode (bytes : Bytes) : String :=
  String.ofList (bytes.flatMap fun byte =>
    [hexDigit (byte.toNat / 16), hexDigit (byte.toNat % 16)])

theorem hexValue_hexDigit : ∀ value, value < 16 →
    hexValue (hexDigit value) = some value := by
  decide

theorem utf8Size_hexDigit : ∀ value, value < 16 →
    (hexDigit value).utf8Size = 1 := by
  decide

theorem hexPairs_hexEncode (bytes : Bytes) :
    hexPairs (hexEncode bytes).toList = some bytes := by
  rw [hexEncode, String.toList_ofList]
  induction bytes with
  | nil => rfl
  | cons byte rest ih =>
    have high : byte.toNat / 16 < 16 := by
      have := byte.toNat_lt
      omega
    have low : byte.toNat % 16 < 16 := Nat.mod_lt _ (by decide)
    have whole : byte.toNat / 16 * 16 + byte.toNat % 16 = byte.toNat := by
      omega
    simp only [List.flatMap_cons, List.cons_append, List.nil_append, hexPairs,
      hexValue_hexDigit _ high, hexValue_hexDigit _ low, bind, Option.bind,
      ih, pure, whole, UInt8.ofNat_toNat]

theorem mem_hexEncode {bytes : Bytes} {character : Char}
    (member : character ∈ (hexEncode bytes).toList) :
    ∃ value, value < 16 ∧ character = hexDigit value := by
  rw [hexEncode, String.toList_ofList, List.mem_flatMap] at member
  obtain ⟨byte, -, among⟩ := member
  have bound := byte.toNat_lt
  simp only [List.mem_cons, List.not_mem_nil, or_false] at among
  rcases among with high | low
  · exact ⟨_, by omega, high⟩
  · exact ⟨_, Nat.mod_lt _ (by decide), low⟩

theorem utf8ByteSize_hexEncode (bytes : Bytes) :
    (hexEncode bytes).utf8ByteSize = 2 * bytes.length := by
  rw [hexEncode]
  induction bytes with
  | nil => rfl
  | cons byte rest ih =>
    have high : byte.toNat / 16 < 16 := by
      have := byte.toNat_lt
      omega
    have low : byte.toNat % 16 < 16 := Nat.mod_lt _ (by decide)
    simp only [List.flatMap_cons, List.cons_append, List.nil_append,
      String.ofList_cons, String.utf8ByteSize_append,
      String.utf8ByteSize_singleton, ih, utf8Size_hexDigit _ high,
      utf8Size_hexDigit _ low, List.length_cons]
    omega

/-- `str::strip_suffix`. -/
def stripSuffix (text suffix : String) : Option String :=
  if suffix.toList <:+ text.toList then
    some (String.ofList
      (text.toList.take (text.toList.length - suffix.toList.length)))
  else none

/-- What a download finds: the store as it opens for the items and again for
the friends, the directory of cached files, and the endpoints held lately. -/
structure Shelf where
  items : Except String ItemTable
  itemQuery : Except StoreError Unit
  /-- The cached file of an info hash. -/
  cached : String → Except String TorrentFile
  peers : Except String PeerTable
  peerQuery : Except StoreError Unit
  recent : List String

/-- A request for `name`, with the `token` of its query string. -/
structure Download where
  name : String
  token : Option String

inductive Response where
  | notFound (text : String)
  | ok (contentDisposition : String) (body : TorrentFile)
deriving DecidableEq, Repr

namespace Shelf

def isServed (shelf : Shelf) (infoHash : Bytes) : Bool :=
  match shelf.items with
  | .error _ => false
  | .ok items =>
    match shelf.itemQuery with
    | .ok _ => items.isShared (hexEncode infoHash)
    | .error _ => false

def peerByKeyHash (shelf : Shelf) (supplied : String) : Option Peer :=
  match shelf.peers with
  | .error _ => none
  | .ok peers =>
    match shelf.peerQuery with
    | .ok _ => Tracker.peerByKeyHash peers supplied
    | .error _ => none

/-- A friend's copy announces with their key; any failure falls back to
the file as cached. -/
def attributedBytes (shelf : Shelf) (urls : Urls) (bytes : TorrentFile)
    (supplied : String) : TorrentFile :=
  match shelf.peerByKeyHash supplied with
  | none => bytes
  | some peer =>
    match announceSetFor urls shelf.recent (some peer.keyHash) with
    | .error _ => bytes
    | .ok announce =>
      match rewriteAnnounce bytes announce with
      | .ok rewritten => rewritten
      | .error _ => bytes

/-- The bytes a request is answered with, from the cached ones. -/
def bytesFor (shelf : Shelf) (urls : Urls) (bytes : TorrentFile) :
    Option String → TorrentFile
  | some supplied => shelf.attributedBytes urls bytes supplied
  | none => bytes

/-- Only what the library serves, and from the cache. -/
def torrentFile (shelf : Shelf) (urls : Urls) (request : Download) :
    Response :=
  match (stripSuffix request.name ".torrent").bind infoHashFromHex with
  | none => .notFound "not a torrent"
  | some infoHash =>
    if shelf.isServed infoHash then
      match shelf.cached (hexEncode infoHash) with
      | .error _ => .notFound "torrent file missing"
      | .ok bytes =>
        .ok ("attachment; filename=\"" ++
            torrentFileName (hexEncode infoHash) ++ "\"")
          (shelf.bytesFor urls bytes request.token)
    else .notFound "not shared"

variable {shelf : Shelf} {urls : Urls}

theorem peerByKeyHash_row {supplied : String} {peer : Peer}
    (found : shelf.peerByKeyHash supplied = some peer) :
    ∃ peers, shelf.peers = .ok peers ∧ ∃ row ∈ peers.rows,
      row.toPeer = peer ∧ row.keyHash = supplied ∧ row.revokedAt = none := by
  unfold peerByKeyHash at found
  split at found
  · cases found
  · rename_i peers opened
    split at found
    · obtain ⟨row, member, same, named, active⟩ :=
        peerByKeyHash_eq_some found
      exact ⟨peers, opened, row, member, same, named, active⟩
    · cases found

theorem peerByKeyHash_keyHash {supplied : String} {peer : Peer}
    (found : shelf.peerByKeyHash supplied = some peer) :
    peer.keyHash = supplied ∧ peer.revokedAt = none := by
  obtain ⟨peers, -, row, -, rfl, named, active⟩ := peerByKeyHash_row found
  exact ⟨named, active⟩

/-- Rewritten bytes announce with the token of the active peer it names;
otherwise the bytes are the ones given. -/
theorem attributedBytes_cases (shelf : Shelf) (urls : Urls)
    (bytes : TorrentFile) (supplied : String) :
    shelf.attributedBytes urls bytes supplied = bytes ∨
      (∃ peer, shelf.peerByKeyHash supplied = some peer) ∧
        ∀ url ∈ (shelf.attributedBytes urls bytes supplied).announceUrls,
          ∃ base ∈ shelf.recent,
            announceUrl urls base (some supplied) = .ok url := by
  cases found : shelf.peerByKeyHash supplied with
  | none => exact .inl (by simp [attributedBytes, found])
  | some peer =>
    have named := (peerByKeyHash_keyHash found).1
    cases built : announceSetFor urls shelf.recent (some peer.keyHash) with
    | error reason => exact .inl (by simp [attributedBytes, found, built])
    | ok announce =>
      cases bytes with
      | malformed raw reason =>
        exact .inl (by
          simp [attributedBytes, found, built, rewriteAnnounce,
            Torrent.readFromBytes, bind, Except.bind])
      | encoded torrent =>
        right
        refine ⟨⟨peer, rfl⟩, ?_⟩
        have rewritten : shelf.attributedBytes urls (.encoded torrent)
            supplied = .encoded (torrent.announcingTo announce) := by
          simp [attributedBytes, found, built, rewriteAnnounce,
            Torrent.readFromBytes, bind, Except.bind, Torrent.encode,
            pure, Except.pure]
        rw [rewritten]
        intro url member
        rw [← named]
        exact announceUrl_of_mem_tiers built
          (Torrent.mem_tiers_of_announcingTo member)

/-- The file in the cache for the hash that a request names. -/
def IsCached (shelf : Shelf) (request : Download) (body : TorrentFile) :
    Prop :=
  ∃ infoHash,
    (stripSuffix request.name ".torrent").bind infoHashFromHex =
        some infoHash ∧
      shelf.cached (hexEncode infoHash) = .ok body

theorem body_of_torrentFile {request : Download} {disposition : String}
    {body : TorrentFile}
    (served : shelf.torrentFile urls request = .ok disposition body) :
    ∃ bytes, shelf.IsCached request bytes ∧
      body = shelf.bytesFor urls bytes request.token := by
  unfold torrentFile at served
  split at served
  · cases served
  · rename_i infoHash named
    split at served
    · split at served
      · cases served
      · rename_i bytes read
        cases served
        exact ⟨bytes, ⟨infoHash, named, read⟩, rfl⟩
    · cases served

/-- What is served is the cached file, unless the token of the request is an
active friend's. -/
theorem bytesFor_cases (shelf : Shelf) (urls : Urls) (bytes : TorrentFile)
    (token : Option String) :
    shelf.bytesFor urls bytes token = bytes ∨
      ∃ supplied peer, token = some supplied ∧
        shelf.peerByKeyHash supplied = some peer ∧
        ∀ url ∈ (shelf.bytesFor urls bytes token).announceUrls,
          ∃ base ∈ shelf.recent, announceUrl urls base token = .ok url := by
  cases token with
  | none => exact .inl rfl
  | some supplied =>
    rcases shelf.attributedBytes_cases urls bytes supplied with
      same | ⟨⟨peer, found⟩, own⟩
    · exact .inl same
    · exact .inr ⟨supplied, peer, rfl, found, own⟩

end Shelf

/-- An announce to `url` gets past the token check, with the peers as they
stand then. -/
def Admits (urls : Urls) (peers : PeerTable)
    (peerQuery : Except StoreError Unit) (required : String)
    (previous : Option String) (url : String) : Prop :=
  ∃ auth, authenticateToken peers peerQuery (some required) previous
    (tokenFromAnnounceUrl urls url) = .ok auth

/-- The request names a friend whose access stands. -/
def Shelf.Resolves (shelf : Shelf) (request : Download) : Prop :=
  ∃ supplied peer, request.token = some supplied ∧
    shelf.peerByKeyHash supplied = some peer ∧ peer.revokedAt = none

/-- Nobody but an active friend downloads a file from which announces are
admitted. -/
def TokenConfined (urls : Urls) (shelf : Shelf) (request : Download)
    (required : String) (previous : Option String) : Prop :=
  ∀ disposition body, shelf.torrentFile urls request = .ok disposition body →
    ∀ peers peerQuery, ∀ url ∈ body.announceUrls,
      Admits urls peers peerQuery required previous url →
        shelf.Resolves request

/-- A file from which announces are admitted was asked for by an active friend
and announces with this friend's own token only, or it is the cached file of
the hash asked for, as the sync loop wrote it, and the token in it is a shared
one, or that of a friend still active at the announce.  Whoever asks without
the key hash of an active friend gets the cached file. -/
theorem admitting_download_attributed_or_cached (urls : Urls) (shelf : Shelf)
    (request : Download) (required : String) (previous : Option String)
    (disposition : String) (body : TorrentFile)
    (served : shelf.torrentFile urls request = .ok disposition body) :
    (∀ peers peerQuery, (∃ url ∈ body.announceUrls,
        Admits urls peers peerQuery required previous url) →
      (shelf.Resolves request ∧
        ∀ url ∈ body.announceUrls, ∃ base ∈ shelf.recent,
          announceUrl urls base request.token = .ok url) ∨
        shelf.IsCached request body ∧
          ∃ url ∈ body.announceUrls, ∃ token,
            tokenFromAnnounceUrl urls url = some token ∧
              (token = required ∨ previous = some token ∨
                ∃ row ∈ peers.rows, row.keyHash = token ∧
                  row.revokedAt = none)) ∧
      ((∀ supplied, request.token = some supplied →
          ∀ peers, shelf.peers = .ok peers →
            ∀ row ∈ peers.rows, row.keyHash = supplied →
              row.revokedAt ≠ none) →
        shelf.IsCached request body) := by
  obtain ⟨bytes, cached, made⟩ := Shelf.body_of_torrentFile served
  have answered := shelf.bytesFor_cases urls bytes request.token
  rw [← made] at answered
  constructor
  · rintro peers peerQuery ⟨url, member, auth, admitted⟩
    rcases answered with same | ⟨supplied, peer, asked, found, own⟩
    · exact .inr ⟨same ▸ cached, url, member, authenticateToken_eq_ok admitted⟩
    · have active := (Shelf.peerByKeyHash_keyHash found).2
      exact .inl ⟨⟨supplied, peer, asked, found, active⟩, own⟩
  · intro nobody
    rcases answered with same | ⟨supplied, peer, asked, found, -⟩
    · exact same ▸ cached
    · obtain ⟨peers, opened, row, member, -, named, active⟩ :=
        Shelf.peerByKeyHash_row found
      exact absurd active (nobody supplied asked peers opened row member named)

/-- URLs that are in normal form already. -/
def plainUrls : Urls where
  parse text := .ok text
  pathSegments text := some ((Rust.splitSlashes text.toList []).drop 3)

/-- Sam, whose access stands, and Alex, whose access was revoked. -/
def samAndAlex : PeerTable where
  rows := [
    ⟨⟨1, "Sam", 10, none, none, none, "sam-hash"⟩, none⟩,
    ⟨⟨2, "Alex", 11, some 20, none, none, "alex-hash"⟩, none⟩]
  nextId := 3
  below := by decide
  ids := by decide
  labels := by decide
  keyHashes := by decide

def sharedHash : String := "00112233445566778899aabbccddeeff00112233"

def sharedMovie : ItemRow where
  id := some 1
  source := .radarr
  sourceId := 1
  fileId := 1
  spec := .movie "Film" none
  releaseTitle := "Film"
  arrPath := "/media/film.mkv"
  size := 1
  ids := ⟨none, none, none, none, none, none, none, none⟩
  infoHash := some sharedHash
  announceTokenFp := none
  createdBySharerr := true
  state := .seeding
  lastError := none
  createdAt := some 1
  media := none
  achievedRatio := none
  ratioLimitReported := none
  isPrivate := true
  infoHashV2 := none
  shareUntil := none
  stamp := none

/-- The file as the sync loop caches it: with the instance's token. -/
def cachedMovie : TorrentFile :=
  .encoded
    { announce := some "http://seed:8477/announce/shared"
      announceList := none
      info := ⟨sharedHash, none, some "film.mkv", none, 1, true⟩ }

def movieShelf : Shelf where
  items := .ok ⟨[sharedMovie], 2, by decide⟩
  itemQuery := .ok ()
  cached infoHash :=
    if infoHash = sharedHash then .ok cachedMovie else .error "not found"
  peers := .ok samAndAlex
  peerQuery := .ok ()
  recent := ["http://seed:8477"]

def askFor (token : Option String) : Download :=
  ⟨torrentFileName sharedHash, token⟩

def movieDisposition : String :=
  "attachment; filename=\"" ++ torrentFileName sharedHash ++ "\""

/-- Sam's own file: what he announces with is his. -/
def samsMovie : TorrentFile :=
  .encoded
    { announce := some "http://seed:8477/announce/sam-hash"
      announceList := none
      info := ⟨sharedHash, none, some "film.mkv", none, 1, true⟩ }

/-- Sam's download is his own, and the revoked Alex gets the cached file. -/
theorem sams_download_attributed :
    ((movieShelf.Resolves (askFor (some "sam-hash")) ∧
      ∀ url ∈ samsMovie.announceUrls, ∃ base ∈ movieShelf.recent,
        announceUrl plainUrls base (some "sam-hash") = .ok url) ∨
      movieShelf.IsCached (askFor (some "sam-hash")) samsMovie ∧
        ∃ url ∈ samsMovie.announceUrls, ∃ token,
          tokenFromAnnounceUrl plainUrls url = some token ∧
            (token = "shared" ∨ none = some token ∨
              ∃ row ∈ samAndAlex.rows, row.keyHash = token ∧
                row.revokedAt = none)) ∧
      movieShelf.IsCached (askFor (some "alex-hash")) cachedMovie := by
  have served : movieShelf.torrentFile plainUrls (askFor (some "sam-hash")) =
      .ok movieDisposition samsMovie := by decide +kernel
  have unattributed : movieShelf.torrentFile plainUrls
      (askFor (some "alex-hash")) = .ok movieDisposition cachedMovie := by
    decide +kernel
  have admitted : authenticateToken samAndAlex (.ok ()) (some "shared") none
      (tokenFromAnnounceUrl plainUrls "http://seed:8477/announce/sam-hash") =
        .ok ⟨some 1, false⟩ := by decide +kernel
  constructor
  · exact (admitting_download_attributed_or_cached plainUrls movieShelf
      (askFor (some "sam-hash")) "shared" none movieDisposition samsMovie
      served).1 samAndAlex (.ok ())
      ⟨"http://seed:8477/announce/sam-hash", by simp [samsMovie,
        TorrentFile.announceUrls, Torrent.announceUrls], _, admitted⟩
  · apply (admitting_download_attributed_or_cached plainUrls movieShelf
      (askFor (some "alex-hash")) "shared" none movieDisposition cachedMovie
      unattributed).2
    intro supplied asked peers opened
    cases asked
    cases opened
    decide +kernel

/-- Without any token, and with that of the revoked Alex, the cached file is
handed out, and announces with the instance's token in it are admitted. -/
theorem cached_token_handed_out :
    ¬ TokenConfined plainUrls movieShelf (askFor none) "shared" none ∧
      ¬ TokenConfined plainUrls movieShelf (askFor (some "alex-hash"))
        "shared" none := by
  have admitted : Admits plainUrls samAndAlex (.ok ()) "shared" none
      "http://seed:8477/announce/shared" :=
    ⟨.default, by decide +kernel⟩
  have announced : "http://seed:8477/announce/shared" ∈
      cachedMovie.announceUrls := by decide +kernel
  constructor
  · intro confined
    obtain ⟨supplied, -, asked, -⟩ := confined movieDisposition cachedMovie
      (by decide +kernel) samAndAlex (.ok ()) _ announced admitted
    cases asked
  · intro confined
    obtain ⟨supplied, peer, asked, found, -⟩ := confined movieDisposition
      cachedMovie (by decide +kernel) samAndAlex (.ok ()) _ announced admitted
    cases asked
    have revoked : movieShelf.peerByKeyHash "alex-hash" = none := by
      decide +kernel
    rw [revoked] at found
    cases found

end Tracker

end Sharerr
