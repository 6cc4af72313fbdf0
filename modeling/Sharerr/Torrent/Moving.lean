import Sharerr.Torrent.Factory

/-!
# Torrents over files that change while they are built

A build looks at the length of every file and then reads them.  In between a
file may grow, shrink or be replaced, so every look at a path and every opening
of one sees a disk of its own.
-/

namespace Sharerr

namespace Factory

open Bencode (Value)
open Bencode.Value (string)
open Metainfo (AllWithin)
open Rust (chunks divCeil BTreeMap.get BTreeMap.insert)

/-- The disk at the first look, the second, and so on. -/
abbrev Moments := Nat → Disk

def Moments.later (moments : Moments) : Moments := fun look =>
  moments (look + 1)

def openFiles (read : Moments) : List String → Except TorrentError Stream
  | [] => .ok []
  | path :: paths => do
      let file ← openFile (read 0) path
      let files ← openFiles read.later paths
      return file :: files

variable {σ : Type}

/-- `for_each_piece`. -/
def forEachPieceWhile (read : Moments) (path : String) (others : List String)
    (pieceLength : Nat) (onPiece : σ → Bytes → σ × Bool) (state : σ) :
    Except TorrentError σ := do
  let stream ← openFiles read (path :: others)
  (eachPiece pieceLength onPiece ((Stream.content stream).length + 1) stream
    state).mapError (.build path)

def hashPiecesWhile (hashes : Hashes) (read : Moments) (path : String)
    (others : List String) (pieceLength : Nat) : Except TorrentError Bytes :=
  forEachPieceWhile read path others pieceLength (fun pieces piece =>
    (pieces ++ (hashes.sha1 piece).val, true)) []

/-- `create`, of a file that one disk lists and another reads. -/
def createWhile (hashes : Hashes) (listed read : Disk)
    (request : TorrentRequest) : Except TorrentError BuiltTorrent := do
  let (size, name) ← sourceFile listed request.path
  let pieceLength := pieceLengthFor size
  let (pieces, v2) ←
    if request.hybrid then do
      let (pieces, v2) ← hashPiecesHybrid hashes read request.path pieceLength
      pure (pieces, some v2)
    else do
      let pieces ← hashPieces hashes read request.path [] pieceLength
      pure (pieces, none)
  let info := insertText "length" (intOf size)
    (baseInfo name pieceLength pieces request.isPrivate)
  match v2 with
  | none =>
    return finish hashes info [] request.announce request.comment size
  | some v2 =>
    return finish hashes (v2.intoInfo name size info) (v2.intoExtra [])
      request.announce request.comment size

/-- On a disk that stands still it is `create`. -/
theorem createWhile_self (hashes : Hashes) (disk : Disk)
    (request : TorrentRequest) :
    createWhile hashes disk disk request = create hashes disk request :=
  rfl

structure SidecarRequest where
  path : String
  sidecars : List String
  rootName : String
  announce : AnnounceSet
  /-- The line `describe` makes of the media. -/
  comment : Option String
  isPrivate : Bool

/-- `path.parent().unwrap_or("")` and the sidecars in it. -/
def SidecarRequest.others (request : SidecarRequest) : List String :=
  request.sidecars.map
    (Rust.Path.join ((Rust.Path.parent request.path).getD ""))

def fileEntry (name : String) (length : Nat) : Value :=
  .dict (insertText "path" (.list [string name])
    (insertText "length" (intOf length) []))

/-- The loop over the sidecars: the size so far, and the files. -/
def listSidecars (listed : Moments) :
    List (String × String) → Nat × List Value →
      Except TorrentError (Nat × List Value)
  | [], state => .ok state
  | (name, other) :: rest, (size, files) =>
    match (listed 0 other).metadata with
    | .error source => .error (.unreadable other source)
    | .ok () =>
      let length := (listed 0 other).content.length
      listSidecars listed.later rest
        (Rust.saturatingAddU64 size length,
          files ++ [fileEntry name length])

def createWithSidecars (hashes : Hashes) (listed read : Moments)
    (request : SidecarRequest) : Except TorrentError BuiltTorrent := do
  let (size, name) ← sourceFile (listed 0) request.path
  let (size, files) ← listSidecars listed.later
    (request.sidecars.zip request.others) (size, [fileEntry name size])
  let pieceLength := pieceLengthFor size
  let pieces ← hashPiecesWhile hashes read request.path request.others
    pieceLength
  let info := insertText "files" (.list files)
    (baseInfo request.rootName pieceLength pieces request.isPrivate)
  return finish hashes info [] request.announce request.comment size

/-- The contents of the files as they were opened. -/
def contentsOf (read : Moments) (paths : List String) : List Bytes :=
  paths.mapIdx fun look path => (read look path).content

/-- The lengths of the files as they were looked at. -/
def lengthsOf (listed : Moments) (paths : List String) : List Nat :=
  paths.mapIdx fun look path => (listed look path).content.length

@[simp] theorem contentsOf_cons (read : Moments) (path : String)
    (paths : List String) : contentsOf read (path :: paths) =
      (read 0 path).content :: contentsOf read.later paths := by
  rw [contentsOf, List.mapIdx_cons]
  rfl

@[simp] theorem lengthsOf_cons (listed : Moments) (path : String)
    (paths : List String) : lengthsOf listed (path :: paths) =
      (listed 0 path).content.length :: lengthsOf listed.later paths := by
  rw [lengthsOf, List.mapIdx_cons]
  rfl

section Reads

variable {room budget chunk : Nat} {stream rest : Stream}

theorem Reader.read_of_ok {file next : Reader} {taken : Bytes}
    (roomy : 0 < room) (read : file.read room = .ok (taken, next)) :
    ∃ count, 0 < count ∧ count ≤ room ∧ taken = file.rest.take count ∧
      next.rest = file.rest.drop count := by
  obtain ⟨wish, -, read⟩ := Rust.bind_eq_ok read
  cases read
  exact ⟨min (max wish 1) room, by omega, Nat.min_le_right _ _, rfl, rfl⟩

theorem read_of_ok {got : Bytes} (roomy : 0 < room)
    (read : stream.read room = .ok (got, rest)) :
    stream.content = got ++ Stream.content rest ∧ got.length ≤ room ∧
      (got = [] → stream.content = []) := by
  induction stream with
  | nil =>
    cases read
    exact ⟨rfl, Nat.zero_le _, fun _ => rfl⟩
  | cons file files ih =>
    obtain ⟨⟨taken, next⟩, handed, read⟩ := Rust.bind_eq_ok read
    obtain ⟨count, some_, most, rfl, left⟩ :=
      Reader.read_of_ok roomy handed
    have split : Stream.content (file :: files) = file.rest.take count ++
        Stream.content (next :: files) := by
      rw [Stream.content, Stream.content, List.flatMap_cons,
        List.flatMap_cons, left, ← List.append_assoc,
        List.take_append_drop]
    by_cases empty : file.rest.take count = []
    · have ended : file.rest = [] := by
        rcases List.take_eq_nil_iff.mp empty with zero | nothing
        · omega
        · exact nothing
      have skipped : Stream.content (file :: files) =
          Stream.content files := by
        rw [Stream.content, List.flatMap_cons, ended, List.nil_append]
        rfl
      simp only [if_pos empty] at read
      rw [skipped]
      exact ih read
    · simp only [if_neg empty] at read
      cases read
      refine ⟨split, ?_, fun none_ => absurd none_ empty⟩
      exact Nat.le_trans (List.length_take_le _ _) most

theorem fill_of_ok {piece : Bytes} (enough : room ≤ budget)
    (filled : fill budget room stream = .ok (piece, rest)) :
    piece = stream.content.take room ∧
      Stream.content rest = stream.content.drop room := by
  induction budget generalizing room stream piece with
  | zero =>
    rw [Nat.le_zero.mp enough]
    cases filled
    exact ⟨rfl, rfl⟩
  | succ budget ih =>
    rw [fill] at filled
    split at filled
    · rename_i full
      cases filled
      rw [full]
      exact ⟨rfl, rfl⟩
    · rename_i roomy
      obtain ⟨⟨got, next⟩, read, filled⟩ := Rust.bind_eq_ok filled
      obtain ⟨content, fits, ended⟩ :=
        read_of_ok (Nat.pos_of_ne_zero roomy) read
      dsimp only at filled
      split at filled
      · rename_i empty
        cases filled
        rw [ended empty, empty, List.nil_append] at content
        rw [← content, ended empty, List.take_nil, List.drop_nil]
        exact ⟨rfl, rfl⟩
      · rename_i some_
        obtain ⟨⟨more, last⟩, later, filled⟩ := Rust.bind_eq_ok filled
        cases filled
        have shorter := List.length_pos_iff.mpr some_
        obtain ⟨rfl, left⟩ := ih (by omega) later
        constructor
        · rw [content, List.take_append, List.take_of_length_le fits]
        · rw [left, content, List.drop_append,
            List.drop_of_length_le fits, List.nil_append]

theorem eachPiece_of_ok (positive : 0 < chunk)
    {onPiece : σ → Bytes → σ × Bool} {state ended : σ}
    (enough : stream.content.length < budget)
    (read : eachPiece chunk onPiece budget stream state = .ok ended) :
    ended = feed onPiece (chunks chunk stream.content) state := by
  induction budget generalizing stream state with
  | zero => exact absurd enough (Nat.not_lt_zero _)
  | succ budget ih =>
    rw [eachPiece] at read
    obtain ⟨⟨piece, rest⟩, filled, read⟩ := Rust.bind_eq_ok read
    obtain ⟨rfl, content⟩ := fill_of_ok (Nat.le_refl chunk) filled
    by_cases empty : stream.content = []
    · simp only [empty, List.take_nil, if_true] at read
      cases read
      rw [empty, Rust.chunks_nil, feed]
    · have some_ := List.length_pos_iff.mpr empty
      have piece : stream.content.take chunk ≠ [] := by
        intro none_
        rcases List.take_eq_nil_iff.mp none_ with zero | nothing
        · omega
        · exact empty nothing
      simp only [if_neg piece] at read
      rw [Rust.chunks_cons positive empty, feed]
      cases more : (onPiece state (stream.content.take chunk)).2 with
      | false =>
        simp only [more, Bool.not_false, Bool.true_or, if_true] at read
        cases read
        rw [if_neg (by decide)]
      | true =>
        rw [if_pos rfl]
        by_cases last : (stream.content.take chunk).length < chunk
        · simp only [last, decide_true, Bool.or_true, if_true] at read
          cases read
          have over_ : stream.content.drop chunk = [] := by
            rw [List.length_take] at last
            exact List.drop_eq_nil_of_le (by omega)
          rw [over_, Rust.chunks_nil, feed]
        · simp only [more, last, decide_false, Bool.not_true,
            Bool.or_self, Bool.false_eq_true, if_false] at read
          have shorter : (Stream.content rest).length < budget := by
            rw [content, List.length_drop]
            omega
          rw [ih shorter read, content]

end Reads

section Hashed

variable {hashes : Hashes} {path : String} {others : List String}
variable {pieceLength : Nat}

variable {disk : Disk} {read : Moments} {pieces : Bytes}

theorem content_of_openFile {file : Reader}
    (opened : openFile disk path = .ok file) :
    file.rest = (disk path).content := by
  unfold openFile at opened
  split at opened
  · cases opened
  · cases opened
    rfl

theorem content_of_openFiles {paths : List String} {stream : Stream}
    (opened : openFiles read paths = .ok stream) :
    stream.content = (contentsOf read paths).flatten := by
  induction paths generalizing read stream with
  | nil =>
    cases opened
    rfl
  | cons path paths ih =>
    obtain ⟨file, first, opened⟩ := Rust.bind_eq_ok opened
    obtain ⟨files, rest, opened⟩ := Rust.bind_eq_ok opened
    cases opened
    rw [Stream.content, List.flatMap_cons, content_of_openFile first,
      contentsOf_cons, List.flatten_cons, ← ih rest]
    rfl

/-- A loop that ends well has handed over the chunks of the files, one after
the other. -/
theorem forEachPieceWhile_of_ok {onPiece : σ → Bytes → σ × Bool}
    {state ended : σ} (positive : 0 < pieceLength)
    (looped : forEachPieceWhile read path others pieceLength onPiece state =
      .ok ended) :
    ended = feed onPiece
      (chunks pieceLength (contentsOf read (path :: others)).flatten)
      state := by
  obtain ⟨stream, opened, looped⟩ := Rust.bind_eq_ok looped
  rw [eachPiece_of_ok positive (Nat.lt_succ_self _)
    (Rust.eq_ok_of_mapError looped), content_of_openFiles opened]

theorem forEachPiece_of_ok {onPiece : σ → Bytes → σ × Bool} {state ended : σ}
    (positive : 0 < pieceLength)
    (looped : forEachPiece disk path [] pieceLength onPiece state = .ok ended) :
    ended = feed onPiece (chunks pieceLength (disk path).content) state := by
  have opened : [path].mapM (openFile disk) =
      openFiles (fun _ => disk) [path] := by
    rw [List.mapM_cons, List.mapM_nil, openFiles]
    rfl
  have whole : (contentsOf (fun _ => disk) [path]).flatten =
      (disk path).content := List.append_nil _
  rw [forEachPiece, opened] at looped
  rw [← whole]
  exact forEachPieceWhile_of_ok positive looped

theorem hashPiecesWhile_of_ok {read : Moments} {pieces : Bytes}
    (positive : 0 < pieceLength)
    (hashed : hashPiecesWhile hashes read path others pieceLength =
      .ok pieces) :
    pieces = digests hashes pieceLength
      (contentsOf read (path :: others)).flatten := by
  rw [forEachPieceWhile_of_ok positive hashed, feed_of_always,
    foldl_append_eq fun piece => (hashes.sha1 piece).val]
  rfl

theorem hashPieces_of_ok (positive : 0 < pieceLength)
    (hashed : hashPieces hashes disk path [] pieceLength = .ok pieces) :
    pieces = digests hashes pieceLength (disk path).content := by
  rw [forEachPiece_of_ok positive hashed, feed_of_always,
    foldl_append_eq fun piece => (hashes.sha1 piece).val]
  rfl

theorem hashPiecesHybrid_of_ok {disk : Disk} {pieces : Bytes}
    {v2 : V2Hashes} (positive : 0 < pieceLength)
    (hashed : hashPiecesHybrid hashes disk path pieceLength =
      .ok (pieces, v2)) :
    pieces = digests hashes pieceLength (disk path).content := by
  obtain ⟨kept, read, hashed⟩ := Rust.bind_eq_ok hashed
  cases hashed
  rw [forEachPiece_of_ok positive read, feed_of_always, pieces_foldl]
  rfl

end Hashed

/-- A length as a torrent declares it. -/
def declared (length : Nat) : Int := min (length : Int) Rust.i64Max

/-- The lengths of the files a torrent declares. -/
def declaredLengths (torrent : Metainfo.Torrent) : Option (List Int) :=
  match torrent.infoField "files" with
  | none =>
    ((torrent.infoField "length").bind Value.asInt).map fun length =>
      [length]
  | some files =>
    files.asList.bind fun files => files.mapM Metainfo.Torrent.fileLength

theorem fileLength_fileEntry (name : String) (length : Nat) :
    Metainfo.Torrent.fileLength (fileEntry name length) =
      some (declared length) := by
  rw [Metainfo.Torrent.fileLength, fileEntry]
  simp only [Value.asDict, Option.bind_some]
  rw [get_insertText, if_neg (by decide), get_insertText, if_pos rfl]
  rfl

theorem listSidecars_of_ok {listed : Moments} {names others : List String}
    (paired : names.length = others.length)
    {size total : Nat} {files all : List Value}
    (ok : listSidecars listed (names.zip others) (size, files) =
      .ok (total, all)) :
    all = files ++ List.zipWith fileEntry names (lengthsOf listed others) := by
  induction names generalizing others listed size files with
  | nil =>
    cases ok
    simp
  | cons name names ih =>
    cases others with
    | nil => cases paired
    | cons other others =>
      rw [List.zip_cons_cons, listSidecars] at ok
      split at ok
      · cases ok
      · dsimp only at ok
        rw [ih (Nat.succ.inj paired) ok, lengthsOf_cons,
          List.zipWith_cons_cons, List.append_assoc]
        rfl

theorem fileLengths_zipWith {names : List String} {lengths : List Nat}
    (paired : names.length = lengths.length) :
    (List.zipWith fileEntry names lengths).mapM
        Metainfo.Torrent.fileLength =
      some (lengths.map declared) := by
  induction names generalizing lengths with
  | nil =>
    cases lengths with
    | nil => rfl
    | cons => cases paired
  | cons name names ih =>
    cases lengths with
    | nil => cases paired
    | cons length lengths =>
      rw [List.zipWith_cons_cons, List.mapM_cons, fileLength_fileEntry,
        ih (Nat.succ.inj paired)]
      rfl

/-- A torrent over files that were listed with these lengths and read with
these contents. -/
structure BuiltOver (hashes : Hashes) (lengths : List Nat)
    (contents : List Bytes) (torrent : Metainfo.Torrent)
    (pieceLength : Nat) : Prop where
  positive : 0 < pieceLength
  cut : torrent.infoField "piece length" = some (.int pieceLength)
  listed : declaredLengths torrent = some (lengths.map declared)
  pieces : torrent.infoField "pieces" =
    some (.bytes (digests hashes pieceLength contents.flatten))
  count : (digests hashes pieceLength contents.flatten).length =
    divCeil contents.flatten.length pieceLength * 20

/-- The declared lengths add up to what was hashed, the pieces are those of
the contents, and there are as many as the declared lengths call for. -/
def SelfConsistent (hashes : Hashes) (contents : List Bytes)
    (torrent : Metainfo.Torrent) : Prop :=
  ∃ (lengths : List Int) (pieceLength : Nat) (pieces : Bytes),
    declaredLengths torrent = some lengths ∧
    lengths.sum = contents.flatten.length ∧ 0 < pieceLength ∧
    torrent.infoField "piece length" = some (.int pieceLength) ∧
    torrent.infoField "pieces" = some (.bytes pieces) ∧
    pieces = digests hashes pieceLength contents.flatten ∧
    pieces.length = divCeil lengths.sum.toNat pieceLength * 20

section Built

variable {hashes : Hashes} {lengths : List Nat} {contents : List Bytes}
variable {torrent : Metainfo.Torrent} {pieceLength : Nat}

theorem BuiltOver.selfConsistent_iff
    (built : BuiltOver hashes lengths contents torrent pieceLength) :
    SelfConsistent hashes contents torrent ↔
      (lengths.map declared).sum = (contents.flatten.length : Int) := by
  constructor
  · rintro ⟨sums, _, _, said, total, -⟩
    rw [built.listed] at said
    cases said
    exact total
  · intro total
    refine ⟨_, pieceLength, _, built.listed, total, built.positive,
      built.cut, built.pieces, rfl, ?_⟩
    rw [built.count, total, Int.toNat_natCast]

theorem pieceLengthFor_pos (size : Nat) : 0 < pieceLengthFor size := by
  obtain ⟨exponent, -, -, length⟩ := pieceLengthFor_eq size
  rw [length]
  exact Nat.two_pow_pos exponent

theorem pieceLengthFor_le_i64Max (size : Nat) :
    (pieceLengthFor size : Int) ≤ Rust.i64Max := by
  obtain ⟨exponent, -, high, length⟩ := pieceLengthFor_eq size
  have most : 2 ^ exponent ≤ 2 ^ 24 := Nat.pow_le_pow_right Nat.two_pos high
  have bound : Rust.i64Max = 2 ^ 63 - 1 := by decide
  omega

theorem builtOver_of_fields {size : Nat}
    (cut : torrent.infoField "piece length" =
      some (intOf (pieceLengthFor size)))
    (listed : declaredLengths torrent = some (lengths.map declared))
    (pieces : torrent.infoField "pieces" =
      some (.bytes (digests hashes (pieceLengthFor size)
        contents.flatten))) :
    BuiltOver hashes lengths contents torrent (pieceLengthFor size) := by
  have positive := pieceLengthFor_pos size
  rw [intOf_of_le (pieceLengthFor_le_i64Max size)] at cut
  refine ⟨positive, cut, listed, pieces, ?_⟩
  rw [length_digests, Rust.length_chunks positive]

end Built

section Outcomes

variable {hashes : Hashes}

variable {torrent : Metainfo.Torrent}

theorem declaredLengths_of_length {length : Nat}
    (single : torrent.infoField "files" = none)
    (given : torrent.infoField "length" = some (intOf length)) :
    declaredLengths torrent = some [declared length] := by
  rw [declaredLengths, single, given]
  rfl

theorem declaredLengths_of_files {names : List String} {lengths : List Nat}
    (paired : names.length = lengths.length)
    (given : torrent.infoField "files" =
      some (.list (List.zipWith fileEntry names lengths))) :
    declaredLengths torrent = some (lengths.map declared) := by
  rw [declaredLengths, given]
  exact fileLengths_zipWith paired

theorem builtOver_single {content : Bytes} {name : String} {size : Nat}
    {isPrivate : Bool}
    (fields : ∀ key ∈ ["files", "length", "piece length", "pieces"],
      torrent.infoField key =
        BTreeMap.get (insertText "length" (intOf size)
          (baseInfo name (pieceLengthFor size)
            (digests hashes (pieceLengthFor size) content) isPrivate))
          (Vault.toUtf8 key)) :
    BuiltOver hashes [size] [content] torrent (pieceLengthFor size) := by
  have whole : [content].flatten = content := List.append_nil content
  apply builtOver_of_fields
  · rw [fields _ (by decide), get_insertText, if_neg (by decide),
      get_baseInfo _ (by decide)]
    rfl
  · apply declaredLengths_of_length
    · rw [fields _ (by decide), get_insertText, if_neg (by decide),
        get_baseInfo _ (by decide)]
      rfl
    · rw [fields _ (by decide), get_insertText, if_pos rfl]
  · rw [fields _ (by decide), get_insertText, if_neg (by decide),
      get_baseInfo _ (by decide), whole]
    rfl

/-- What is made of a single file. -/
theorem createWhile_of_ok {listed read : Disk} {request : TorrentRequest}
    {built : BuiltTorrent}
    (created : createWhile hashes listed read request = .ok built) :
    ∃ torrent pieceLength, built.data = torrent.encode ∧
      BuiltOver hashes [(listed request.path).content.length]
        [(read request.path).content] torrent pieceLength := by
  obtain ⟨⟨size, name⟩, found, created⟩ := Rust.bind_eq_ok created
  obtain ⟨_, -, same⟩ := sourceFile_of_ok found
  cases same
  have positive := pieceLengthFor_pos (listed request.path).content.length
  dsimp only at created
  cases hybrid : request.hybrid with
  | false =>
    simp only [hybrid, Bool.false_eq_true, if_false] at created
    obtain ⟨pieces, hashed, created⟩ := Rust.bind_eq_ok created
    cases created
    obtain rfl := hashPieces_of_ok positive hashed
    exact ⟨_, _, rfl, builtOver_single fun key _ => rfl⟩
  | true =>
    simp only [hybrid, if_true] at created
    obtain ⟨⟨pieces, v2⟩, hashed, created⟩ := Rust.bind_eq_ok created
    cases created
    obtain rfl := hashPiecesHybrid_of_ok positive hashed
    have free : ∀ key ∈ ["files", "length", "piece length", "pieces"],
        key ≠ "file tree" ∧ key ≠ "meta version" := by
      decide
    exact ⟨_, _, rfl, builtOver_single fun key among =>
      get_intoInfo (free key among).1 (free key among).2⟩

/-- The info dictionary of a torrent over several files. -/
def severalInfo (hashes : Hashes) (names : List String) (lengths : List Nat)
    (content : Bytes) (rootName : String) (pieceLength : Nat)
    (isPrivate : Bool) : List (Bytes × Value) :=
  insertText "files" (.list (List.zipWith fileEntry names lengths))
    (baseInfo rootName pieceLength (digests hashes pieceLength content)
      isPrivate)

theorem get_severalInfo {names : List String} {lengths : List Nat}
    {content : Bytes} {rootName : String} {pieceLength : Nat}
    {isPrivate : Bool} (key : String) (other : key ≠ "private") :
    BTreeMap.get (severalInfo hashes names lengths content rootName
        pieceLength isPrivate) (Vault.toUtf8 key) =
      if key = "files" then
        some (.list (List.zipWith fileEntry names lengths))
      else if key = "pieces" then
        some (.bytes (digests hashes pieceLength content))
      else if key = "piece length" then some (intOf pieceLength)
      else if key = "name" then some (string rootName)
      else none := by
  rw [severalInfo, get_insertText, get_baseInfo key other]

theorem createWithSidecars_cases {listed read : Moments}
    {request : SidecarRequest} {built : BuiltTorrent}
    (created : createWithSidecars hashes listed read request = .ok built) :
    ∃ name total, Rust.Path.fileName request.path = some name ∧
      built = finish hashes (severalInfo hashes (name :: request.sidecars)
        (lengthsOf listed (request.path :: request.others))
        (contentsOf read (request.path :: request.others)).flatten
        request.rootName (pieceLengthFor total) request.isPrivate) []
          request.announce request.comment total := by
  obtain ⟨⟨size, name⟩, found, created⟩ := Rust.bind_eq_ok created
  obtain ⟨_, named, same⟩ := sourceFile_of_ok found
  cases same
  obtain ⟨⟨total, files⟩, looked, created⟩ := Rust.bind_eq_ok created
  obtain ⟨pieces, hashed, created⟩ := Rust.bind_eq_ok created
  cases created
  obtain rfl := hashPiecesWhile_of_ok (pieceLengthFor_pos total) hashed
  obtain rfl := listSidecars_of_ok (List.length_map _).symm looked
  rw [lengthsOf_cons]
  exact ⟨name, total, named, rfl⟩

theorem builtOver_several {names : List String} {lengths : List Nat}
    {contents : List Bytes} {rootName : String} {total : Nat}
    {isPrivate : Bool} (info : torrent.info = severalInfo hashes names lengths
      contents.flatten rootName (pieceLengthFor total) isPrivate)
    (paired : names.length = lengths.length) :
    BuiltOver hashes lengths contents torrent (pieceLengthFor total) := by
  have field (key : String) (other : key ≠ "private") :=
    (congrArg (BTreeMap.get · (Vault.toUtf8 key)) info).trans
      (get_severalInfo key other)
  exact builtOver_of_fields (field "piece length" (by decide))
    (declaredLengths_of_files paired (field "files" (by decide)))
    (field "pieces" (by decide))

theorem length_listed (listed : Moments) (request : SidecarRequest)
    (name : String) : (name :: request.sidecars).length =
      (lengthsOf listed (request.path :: request.others)).length := by
  rw [lengthsOf, List.length_mapIdx, List.length_cons, List.length_cons,
    SidecarRequest.others, List.length_map]

/-- What is made of a file and its sidecars. -/
theorem createWithSidecars_of_ok {listed read : Moments}
    {request : SidecarRequest} {built : BuiltTorrent}
    (created : createWithSidecars hashes listed read request = .ok built) :
    ∃ torrent pieceLength, built.data = torrent.encode ∧
      BuiltOver hashes (lengthsOf listed (request.path :: request.others))
        (contentsOf read (request.path :: request.others)) torrent
        pieceLength := by
  obtain ⟨name, total, -, rfl⟩ := createWithSidecars_cases created
  exact ⟨_, pieceLengthFor total, rfl,
    builtOver_several rfl (length_listed listed request name)⟩

/-- What a build makes declares the lengths that were reported and has the
pieces of what was read, and it is consistent when the two agree. -/
theorem build_follows_reports (hashes : Hashes) :
    (∀ (listed read : Disk) (request : TorrentRequest)
      (built : BuiltTorrent),
      createWhile hashes listed read request = .ok built →
        ∃ torrent pieceLength, built.data = torrent.encode ∧
          BuiltOver hashes [(listed request.path).content.length]
            [(read request.path).content] torrent pieceLength ∧
          (SelfConsistent hashes [(read request.path).content] torrent ↔
            declared (listed request.path).content.length =
              (read request.path).content.length)) ∧
    ∀ (listed read : Moments) (request : SidecarRequest)
      (built : BuiltTorrent),
      createWithSidecars hashes listed read request = .ok built →
        ∃ torrent pieceLength, built.data = torrent.encode ∧
          BuiltOver hashes
            (lengthsOf listed (request.path :: request.others))
            (contentsOf read (request.path :: request.others)) torrent
            pieceLength ∧
          (SelfConsistent hashes
              (contentsOf read (request.path :: request.others)) torrent ↔
            ((lengthsOf listed (request.path :: request.others)).map
                declared).sum =
              ((contentsOf read
                (request.path :: request.others)).flatten.length : Int)) := by
  constructor
  · intro listed read request built created
    obtain ⟨torrent, pieceLength, data, over_⟩ := createWhile_of_ok created
    refine ⟨torrent, pieceLength, data, over_, ?_⟩
    rw [over_.selfConsistent_iff, List.map_singleton, List.sum_singleton,
      List.flatten_singleton]
  · intro listed read request built created
    obtain ⟨torrent, pieceLength, data, over_⟩ :=
      createWithSidecars_of_ok created
    exact ⟨torrent, pieceLength, data, over_, over_.selfConsistent_iff⟩

end Outcomes

/-- `smallDisk`, with a sidecar that is still empty when it is looked at. -/
def growing : Moments := fun look =>
  if look = 0 then smallDisk else emptyDisk

def sidecarRequest : SidecarRequest where
  path := "/m/a.mkv"
  sidecars := ["a.srt"]
  rootName := "m"
  announce := Metainfo.movedSet
  comment := none
  isPrivate := false

theorem growing_follows_reports :
    (∃ built torrent pieceLength,
      createWhile prefixHashes emptyDisk smallDisk smallRequest = .ok built ∧
      built.data = torrent.encode ∧
      BuiltOver prefixHashes [0] [[1, 2, 3]] torrent pieceLength ∧
      (SelfConsistent prefixHashes [[1, 2, 3]] torrent ↔
        declared 0 = 3)) ∧
    ∃ built torrent pieceLength,
      createWithSidecars prefixHashes growing (fun _ => smallDisk)
        sidecarRequest = .ok built ∧
      built.data = torrent.encode ∧
      BuiltOver prefixHashes [3, 0] [[1, 2, 3], [1, 2, 3]] torrent
        pieceLength ∧
      (SelfConsistent prefixHashes [[1, 2, 3], [1, 2, 3]] torrent ↔
        ([3, 0].map declared).sum = 6) := by
  have single : ∃ built, createWhile prefixHashes emptyDisk smallDisk
      smallRequest = .ok built := ⟨_, rfl⟩
  have several : ∃ built, createWithSidecars prefixHashes growing
      (fun _ => smallDisk) sidecarRequest = .ok built := ⟨_, rfl⟩
  obtain ⟨built, created⟩ := single
  obtain ⟨others, gathered⟩ := several
  obtain ⟨torrent, pieceLength, data, over_, agree⟩ :=
    (build_follows_reports prefixHashes).1 _ _ _ _ created
  obtain ⟨several, cut, written, listed, sums⟩ :=
    (build_follows_reports prefixHashes).2 _ _ _ _ gathered
  exact ⟨⟨built, torrent, pieceLength, created, data, over_, agree⟩,
    others, several, cut, gathered, written, listed, sums⟩

/-- A file that was empty when it was looked at and not when it was read makes
a torrent of no length that has a piece. -/
theorem grown_file_is_inconsistent :
    ∃ built torrent,
      createWhile prefixHashes emptyDisk smallDisk smallRequest = .ok built ∧
      Metainfo.Torrent.readFromBytes built.data = .ok torrent ∧
      declaredLengths torrent = some [0] ∧
      torrent.infoField "pieces" = some (.bytes
        (digests prefixHashes (pieceLengthFor 0) [1, 2, 3])) ∧
      ¬ SelfConsistent prefixHashes [[1, 2, 3]] torrent := by
  have named := smallRequest_inMemory.name "a.mkv" (by decide +kernel)
  let info := insertText "length" (intOf 0) (baseInfo "a.mkv"
    (pieceLengthFor 0) (digests prefixHashes (pieceLengthFor 0) [1, 2, 3])
    true)
  have fits : AllWithin 1 info :=
    allWithin_insertText (by simp [writtenKeys])
      (allWithin_baseInfo named (by decide +kernel)) (within_intOf 0)
  have read := read_finished (fits.mono (by decide : 1 ≤ 4)) allWithin_nil
    smallRequest_inMemory.announce smallRequest_inMemory.comment
    fun key _ => rfl
  have over_ : BuiltOver prefixHashes [0] [[1, 2, 3]] (finished info []
      smallRequest.announce smallRequest.comment) (pieceLengthFor 0) :=
    builtOver_single fun key _ => rfl
  refine ⟨finish prefixHashes info [] smallRequest.announce
    smallRequest.comment 0, _, rfl, read, over_.listed, over_.pieces, ?_⟩
  rw [over_.selfConsistent_iff]
  decide

end Factory

end Sharerr
