import Sharerr.Rust.Path
import Sharerr.Torrent.Announce
import Sharerr.Torrent.Hybrid

/-!
# Building a torrent over a file

The factory describes a file where it lies, without touching it.  What it wrote
can be checked against a file again: the same length, and every piece the same.
-/

namespace Sharerr

namespace Factory

open Bencode (Value)
open Bencode.Value (string)
open Metainfo (Within AllWithin InMemory)
open Rust (chunks divCeil u64Bound BTreeMap.get BTreeMap.insert)

/-- The next expected hash must be that of the piece; the first that differs
ends the read. -/
def matchPiece (hashes : Hashes) (state : Bool × List Bytes) (piece : Bytes) :
    (Bool × List Bytes) × Bool :=
  let matched := decide (state.2.head? = some (hashes.sha1 piece).val)
  ((matched, state.2.tail), matched)

/-- The sizes are compared before a byte is read. -/
def verifySingleFile (hashes : Hashes) (disk : Disk) (path : String)
    (torrent : Metainfo.Torrent) : Except TorrentError Bool :=
  match torrent.pieceLength, torrent.pieces with
  | some pieceLength, some expected =>
    if torrent.isSingleFile = false ∨ pieceLength = 0 ∨
        expected.length % 20 ≠ 0 then .ok false
    else
      match (disk path).metadata with
      | .error source => .error (.unreadable path source)
      | .ok () =>
        let size := (disk path).content.length
        if size ≠ torrent.contentLength ∨
            divCeil size pieceLength ≠ expected.length / 20 then .ok false
        else do
          let (matched, expected) ← forEachPiece disk path [] pieceLength
            (matchPiece hashes) (true, chunks 20 expected)
          return matched && expected.isEmpty
  | _, _ => .ok false

structure TorrentRequest where
  path : String
  announce : AnnounceSet
  /-- The line `describe` makes of the media. -/
  comment : Option String
  isPrivate : Bool
  hybrid : Bool

structure BuiltTorrent where
  infoHash : String
  infoHashV2 : Option String
  data : Bytes
  size : Nat

def kib : Nat := 1024

def mib : Nat := 1024 * kib

def pieceLengthFor (size : Nat) : Nat :=
  if size ≤ 512 * mib then 256 * kib
  else if size ≤ 1024 * mib then 512 * kib
  else if size ≤ 2048 * mib then mib
  else if size ≤ 4096 * mib then 2 * mib
  else if size ≤ 8192 * mib then 4 * mib
  else if size ≤ 16384 * mib then 8 * mib
  else 16 * mib

/-- The size and name of the file. -/
def sourceFile (disk : Disk) (path : String) :
    Except TorrentError (Nat × String) :=
  match (disk path).metadata with
  | .error source => .error (.unreadable path source)
  | .ok () =>
    if (disk path).isFile = false then .error (.notAFile path)
    else
      match Rust.Path.fileName path with
      | none => .error (.noFileName path)
      | some name => .ok ((disk path).content.length, name)

def intOf (value : Nat) : Value := .int (min (value : Int) Rust.i64Max)

def insertText (key : String) (value : Value) (dict : List (Bytes × Value)) :
    List (Bytes × Value) :=
  BTreeMap.insert (Vault.toUtf8 key) value dict

def baseInfo (name : String) (pieceLength : Nat) (pieces : Bytes)
    (isPrivate : Bool) : List (Bytes × Value) :=
  let info := insertText "pieces" (.bytes pieces)
    (insertText "piece length" (intOf pieceLength)
      (insertText "name" (string name) []))
  if isPrivate then insertText "private" (.int 1) info else info

/-- The file of a v2 file tree; an empty one has no root. -/
def V2Hashes.file (v2 : V2Hashes) (size : Nat) : List (Bytes × Value) :=
  let file := insertText "length" (intOf size) []
  match v2.root with
  | none => file
  | some root => insertText "pieces root" (.bytes root.val) file

def V2Hashes.layers (v2 : V2Hashes) : List (Bytes × Value) :=
  match v2.root, v2.layer with
  | some root, some layer => BTreeMap.insert root.val (.bytes layer) []
  | _, _ => []

def V2Hashes.intoInfo (v2 : V2Hashes) (name : String) (size : Nat)
    (info : List (Bytes × Value)) : List (Bytes × Value) :=
  let entry := BTreeMap.insert [] (.dict (v2.file size)) []
  let tree := insertText name (.dict entry) []
  insertText "file tree" (.dict tree) (insertText "meta version" (.int 2) info)

def V2Hashes.intoExtra (v2 : V2Hashes) (extra : List (Bytes × Value)) :
    List (Bytes × Value) :=
  insertText "piece layers" (.dict v2.layers) extra

/-- The torrent that `finish` encodes. -/
def finished (info extra : List (Bytes × Value)) (announce : AnnounceSet)
    (comment : Option String) : Metainfo.Torrent where
  announce := some announce.primary
  announceList := announce.tierList
  info := info
  extra :=
    match comment with
    | none => extra
    | some comment => insertText "comment" (string comment) extra

def finish (hashes : Hashes) (info extra : List (Bytes × Value))
    (announce : AnnounceSet) (comment : Option String) (size : Nat) :
    BuiltTorrent :=
  let torrent := finished info extra announce comment
  { infoHash := torrent.infoHash fun bytes => (hashes.sha1 bytes).val
    infoHashV2 := torrent.infoHashV2 fun bytes => (hashes.sha256 bytes).val
    data := torrent.encode
    size := size }

/-- One file, hashed once for both versions where it is to be a hybrid. -/
def create (hashes : Hashes) (disk : Disk) (request : TorrentRequest) :
    Except TorrentError BuiltTorrent := do
  let (size, name) ← sourceFile disk request.path
  let pieceLength := pieceLengthFor size
  let (pieces, v2) ←
    if request.hybrid then do
      let (pieces, v2) ← hashPiecesHybrid hashes disk request.path pieceLength
      pure (pieces, some v2)
    else do
      let pieces ← hashPieces hashes disk request.path [] pieceLength
      pure (pieces, none)
  let info := insertText "length" (intOf size)
    (baseInfo name pieceLength pieces request.isPrivate)
  match v2 with
  | none =>
    return finish hashes info [] request.announce request.comment size
  | some v2 =>
    return finish hashes (v2.intoInfo name size info) (v2.intoExtra [])
      request.announce request.comment size

/-- One file of this content, cut into pieces of some length. -/
structure Describes (hashes : Hashes) (content : Bytes)
    (torrent : Metainfo.Torrent) : Prop where
  single : torrent.infoField "files" = none
  length : torrent.infoField "length" = some (.int content.length)
  pieces : ∃ pieceLength : Nat, 0 < pieceLength ∧
    torrent.infoField "piece length" = some (.int pieceLength) ∧
    torrent.infoField "pieces" =
      some (.bytes (digests hashes pieceLength content))

section Verify

variable {hashes : Hashes} {disk : Disk} {path : String}
  {torrent : Metainfo.Torrent} {content : Bytes}

variable {value : Value} {bytes : Bytes} {pieceLength : Nat}

theorem asInt_eq_some {number : Int} :
    value.asInt = some number ↔ value = .int number := by
  cases value <;> simp [Value.asInt]

theorem asBytes_eq_some :
    value.asBytes = some bytes ↔ value = .bytes bytes := by
  cases value <;> simp [Value.asBytes]

theorem pieceLength_eq_some :
    torrent.pieceLength = some pieceLength ↔ 0 < pieceLength ∧
      torrent.infoField "piece length" = some (.int pieceLength) := by
  rw [Metainfo.Torrent.pieceLength]
  cases found : (torrent.infoField "piece length").bind Value.asInt with
  | none =>
    constructor
    · intro read
      cases read
    · intro stated
      rw [stated.2] at found
      cases found
  | some number =>
    obtain ⟨value, field, isInt⟩ := Option.bind_eq_some_iff.mp found
    rw [asInt_eq_some] at isInt
    rw [field, isInt]
    simp only [bind, Option.bind]
    by_cases positive : 0 < number
    · rw [if_pos positive]
      simp only [Option.some.injEq, Value.int.injEq]
      omega
    · rw [if_neg positive]
      simp only [Option.some.injEq, Value.int.injEq]
      constructor
      · intro read
        cases read
      · intro stated
        omega

theorem pieces_eq_some : torrent.pieces = some bytes ↔
    torrent.infoField "pieces" = some (.bytes bytes) := by
  rw [Metainfo.Torrent.pieces, Option.bind_eq_some_iff]
  simp only [asBytes_eq_some]
  constructor
  · intro found
    obtain ⟨value, field, rfl⟩ := found
    exact field
  · intro field
    exact ⟨_, field, rfl⟩

theorem feed_matchPiece (pieces expected : List Bytes) :
    ((feed (matchPiece hashes) pieces (true, expected)).1 &&
      (feed (matchPiece hashes) pieces (true, expected)).2.isEmpty) = true ↔
      expected = pieces.map fun piece => (hashes.sha1 piece).val := by
  induction pieces generalizing expected with
  | nil => simp [feed]
  | cons piece pieces ih =>
    rw [feed]
    by_cases next : expected.head? = some (hashes.sha1 piece).val
    · obtain ⟨rest, rfl⟩ := List.head?_eq_some_iff.mp next
      simp only [matchPiece, next, decide_true, if_true, List.tail_cons]
      rw [ih, List.map_cons, List.cons.injEq]
      simp
    · simp only [matchPiece, next, decide_false, Bool.false_eq_true,
        if_false, Bool.false_and, List.map_cons, false_iff]
      intro same
      rw [same] at next
      exact next rfl

theorem chunks_eq_digests (expected : Bytes) :
    chunks 20 expected = (chunks pieceLength content).map
        (fun piece => (hashes.sha1 piece).val) ↔
      expected = digests hashes pieceLength content := by
  constructor
  · intro each
    rw [← Rust.flatten_chunks (by decide : 0 < 20) expected, each, digests,
      List.flatMap_def]
  · intro whole
    rw [whole, digests, Rust.chunks_flatMap (by decide)]
    intro piece _
    exact (hashes.sha1 piece).property

theorem length_digests (pieceLength : Nat) :
    (digests hashes pieceLength content).length =
      (chunks pieceLength content).length * 20 := by
  rw [digests, Rust.length_flatMap_of_full]
  intro piece _
  exact (hashes.sha1 piece).property

/-- What a check that succeeds has seen. -/
theorem verify_iff (readable : (disk path).Readable) :
    verifySingleFile hashes disk path torrent = .ok true ↔
      torrent.infoField "files" = none ∧
        torrent.contentLength = (disk path).content.length ∧
        ∃ pieceLength : Nat, 0 < pieceLength ∧
          torrent.infoField "piece length" = some (.int pieceLength) ∧
          torrent.infoField "pieces" = some (.bytes
            (digests hashes pieceLength (disk path).content)) := by
  rw [verifySingleFile]
  cases some_ : torrent.pieceLength with
  | none =>
    constructor
    · intro verified
      cases verified
    · intro described
      obtain ⟨-, -, pieceLength, positive, stated, -⟩ := described
      rw [pieceLength_eq_some.mpr ⟨positive, stated⟩] at some_
      cases some_
  | some pieceLength =>
    obtain ⟨positive, stated⟩ := pieceLength_eq_some.mp some_
    cases given : torrent.pieces with
    | none =>
      constructor
      · intro verified
        cases verified
      · intro described
        obtain ⟨-, -, _, -, -, pieces⟩ := described
        rw [pieces_eq_some.mpr pieces] at given
        cases given
    | some expected =>
      have field := pieces_eq_some.mp given
      have described : (∃ pieceLength : Nat, 0 < pieceLength ∧
          torrent.infoField "piece length" = some (.int pieceLength) ∧
          torrent.infoField "pieces" = some (.bytes
            (digests hashes pieceLength (disk path).content))) ↔
          expected = digests hashes pieceLength (disk path).content := by
        simp only [stated, field, Option.some.injEq, Value.int.injEq,
          Value.bytes.injEq]
        constructor
        · intro found
          obtain ⟨other, -, same, whole⟩ := found
          rw [Nat.cast_inj.mp same]
          exact whole
        · intro whole
          exact ⟨pieceLength, positive, rfl, whole⟩
      have checked : (do
          let (matched, expected) ← forEachPiece disk path [] pieceLength
            (matchPiece hashes) (true, chunks 20 expected)
          return matched && expected.isEmpty) = .ok true ↔
          expected = digests hashes pieceLength (disk path).content := by
        rw [forEachPiece_eq readable positive, ← chunks_eq_digests,
          ← feed_matchPiece]
        simp only [bind, Except.bind, pure, Except.pure, Except.ok.injEq]
      have length (whole : expected =
          digests hashes pieceLength (disk path).content) :
          expected.length =
            divCeil (disk path).content.length pieceLength * 20 := by
        rw [whole, length_digests, Rust.length_chunks positive]
      rw [described, readable.metadata]
      simp only
      split
      · next bad =>
          constructor
          · intro verified
            cases verified
          · intro seen
            obtain ⟨single, -, whole⟩ := seen
            have count := length whole
            rw [Metainfo.Torrent.isSingleFile, single] at bad
            rcases bad with several | zero | uneven
            · cases several
            · omega
            · omega
      · next good =>
          rw [not_or] at good
          obtain ⟨single, -⟩ := good
          rw [Metainfo.Torrent.isSingleFile, Bool.not_eq_false,
            Option.isNone_iff_eq_none] at single
          split
          · next off =>
              constructor
              · intro verified
                cases verified
              · intro seen
                obtain ⟨-, size, whole⟩ := seen
                have count := length whole
                rcases off with other | miscounted
                · exact absurd size.symm other
                · omega
          · next fitting =>
              rw [not_or, not_not] at fitting
              rw [checked]
              exact ⟨fun whole => ⟨single, fitting.1.symm, whole⟩,
                fun seen => seen.2.2⟩

/-- A length that is missing or negative reads as zero. -/
theorem contentLength_iff (single : torrent.infoField "files" = none)
    {size : Nat} : torrent.contentLength = size ↔
      torrent.infoField "length" = some (.int size) ∨
        size = 0 ∧ ∀ length : Int,
          torrent.infoField "length" = some (.int length) → length < 0 := by
  rw [Metainfo.Torrent.contentLength, Metainfo.Torrent.length, single]
  cases found : (torrent.infoField "length").bind Value.asInt with
  | none =>
    have missing (length : Int) :
        torrent.infoField "length" ≠ some (.int length) := by
      intro given
      rw [given] at found
      cases found
    simp only [bind, Option.bind, missing, false_or, false_implies,
      implies_true, and_true]
    exact eq_comm
  | some number =>
    obtain ⟨value, field, isInt⟩ := Option.bind_eq_some_iff.mp found
    rw [asInt_eq_some.mp isInt] at field
    simp only [field, Option.some.injEq, Value.int.injEq, forall_eq']
    by_cases positive : 0 ≤ number
    · rw [if_pos positive]
      omega
    · rw [if_neg positive]
      omega

theorem Describes.verifies (readable : (disk path).Readable)
    (described : Describes hashes (disk path).content torrent) :
    verifySingleFile hashes disk path torrent = .ok true :=
  (verify_iff readable).mpr ⟨described.single,
    (contentLength_iff described.single).mpr (Or.inl described.length),
    described.pieces⟩

end Verify

/-- The texts of a request fit in memory. -/
structure TorrentRequest.InMemory (request : TorrentRequest) : Prop where
  name : ∀ name ∈ Rust.Path.fileName request.path, Metainfo.InMemory name
  announce : Metainfo.InMemorySet request.announce
  comment : ∀ comment ∈ request.comment, Metainfo.InMemory comment

section Build

variable {hashes : Hashes} {disk : Disk} {request : TorrentRequest}

theorem pieceLengthFor_eq (size : Nat) :
    ∃ exponent, 18 ≤ exponent ∧ exponent ≤ 24 ∧
      pieceLengthFor size = 2 ^ exponent := by
  unfold pieceLengthFor
  split_ifs
  · exact ⟨18, by decide, by decide, rfl⟩
  · exact ⟨19, by decide, by decide, rfl⟩
  · exact ⟨20, by decide, by decide, rfl⟩
  · exact ⟨21, by decide, by decide, rfl⟩
  · exact ⟨22, by decide, by decide, rfl⟩
  · exact ⟨23, by decide, by decide, rfl⟩
  · exact ⟨24, by decide, by decide, rfl⟩

theorem toUtf8_inj {left right : String} :
    Vault.toUtf8 left = Vault.toUtf8 right ↔ left = right := by
  constructor
  · intro same
    have read := Vault.fromUtf8_toUtf8 left
    rw [same, Vault.fromUtf8_toUtf8] at read
    exact (Option.some.inj read).symm
  · intro same
    rw [same]

variable {key name : String} {isPrivate : Bool} {pieceLength : Nat}
  {content : Bytes}

variable {dict : List (Bytes × Value)} {value : Value}
  {levels size exponent : Nat} {built : BuiltTorrent}

theorem get_insertText {other : String} :
    BTreeMap.get (insertText key value dict) (Vault.toUtf8 other) =
      if other = key then some value
      else BTreeMap.get dict (Vault.toUtf8 other) := by
  rw [insertText, Rust.BTreeMap.get_insert]
  simp only [toUtf8_inj]

/-- The keys the factory writes. -/
def writtenKeys : List String :=
  ["name", "piece length", "pieces", "private", "length", "files", "path",
    "pieces root", "meta version", "file tree", "piece layers", "comment"]

theorem writtenKeys_inMemory : ∀ key ∈ writtenKeys, InMemory key := by
  unfold InMemory
  decide +kernel

theorem allWithin_nil : AllWithin levels [] :=
  ⟨List.Pairwise.nil, fun _ member => nomatch member⟩

theorem allWithin_insertText (written : key ∈ writtenKeys)
    (all : AllWithin levels dict) (within : Within levels value) :
    AllWithin levels (insertText key value dict) :=
  all.insert (writtenKeys_inMemory key written) within

theorem within_intOf (value : Nat) : Within 1 (intOf value) := by
  refine ⟨.int ?_ (Int.min_le_right _ _), Nat.le_refl 1⟩
  have low : Rust.i64Min ≤ 0 := by decide
  have high : 0 ≤ Rust.i64Max := by decide
  have positive := Int.natCast_nonneg value
  omega

theorem within_bytes {bytes : Bytes} (short : bytes.length < u64Bound) :
    Within 1 (.bytes bytes) :=
  ⟨.bytes short, Nat.le_refl 1⟩

theorem intOf_of_le {value : Nat} (small : (value : Int) ≤ Rust.i64Max) :
    intOf value = .int value := by
  rw [intOf, Int.min_eq_left small]

section Written

variable {name : String} {pieceLength size : Nat} {pieces : Bytes}
  {isPrivate : Bool} {v2 : V2Hashes} {info extra : List (Bytes × Value)}

theorem allWithin_baseInfo (named : Metainfo.InMemory name)
    (short : pieces.length < u64Bound) :
    AllWithin 1 (baseInfo name pieceLength pieces isPrivate) := by
  have fields : AllWithin 1 (insertText "pieces" (.bytes pieces)
      (insertText "piece length" (intOf pieceLength)
        (insertText "name" (string name) []))) :=
    allWithin_insertText (by simp [writtenKeys])
      (allWithin_insertText (by simp [writtenKeys])
        (allWithin_insertText (by simp [writtenKeys]) allWithin_nil
          (Metainfo.within_string named))
        (within_intOf _))
      (within_bytes short)
  rw [baseInfo]
  split
  · exact allWithin_insertText (by simp [writtenKeys]) fields
      ⟨.int (by decide) (by decide), Nat.le_refl 1⟩
  · exact fields

/-- Hashes of a layer that fits in memory. -/
def V2Hashes.Short (v2 : V2Hashes) : Prop :=
  ∀ layer ∈ v2.layer, layer.length < u64Bound

theorem allWithin_intoInfo (named : Metainfo.InMemory name)
    (all : AllWithin 1 info) : AllWithin 4 (v2.intoInfo name size info) := by
  have file : AllWithin 1 (v2.file size) := by
    have length : AllWithin 1 (insertText "length" (intOf size) []) :=
      allWithin_insertText (by simp [writtenKeys]) allWithin_nil
        (within_intOf _)
    rw [V2Hashes.file]
    split
    · exact length
    · next root _ =>
        refine allWithin_insertText (by simp [writtenKeys]) length
          (within_bytes ?_)
        rw [root.property]
        decide
  have entry : AllWithin 2 (BTreeMap.insert [] (.dict (v2.file size)) []) :=
    allWithin_nil.insert (by decide) file.dict
  have tree : AllWithin 3 (insertText name (.dict
      (BTreeMap.insert [] (.dict (v2.file size)) [])) []) :=
    allWithin_nil.insert named entry.dict
  have version : AllWithin 4 (insertText "meta version" (.int 2) info) :=
    allWithin_insertText (by simp [writtenKeys]) (all.mono (by decide))
      ⟨.int (by decide) (by decide), by decide⟩
  exact allWithin_insertText (by simp [writtenKeys]) version tree.dict

theorem allWithin_intoExtra (short : v2.Short) (all : AllWithin 2 extra) :
    AllWithin 2 (v2.intoExtra extra) := by
  have layers : AllWithin 1 v2.layers := by
    rw [V2Hashes.layers]
    split
    · next root layer _ given =>
        refine allWithin_nil.insert ?_ (within_bytes (short layer given))
        rw [root.property]
        decide
    · exact allWithin_nil
  exact allWithin_insertText (by simp [writtenKeys]) all layers.dict

theorem read_finished {announce : AnnounceSet} {comment : Option String}
    (fits : AllWithin 4 info) (more : AllWithin 2 extra)
    (named : Metainfo.InMemorySet announce)
    (line : ∀ text ∈ comment, Metainfo.InMemory text)
    (apart : ∀ key ∈ Metainfo.ownKeys, BTreeMap.get extra key = none) :
    Metainfo.Torrent.readFromBytes
        (finished info extra announce comment).encode =
      .ok (finished info extra announce comment) := by
  have comment_ : ∀ key ∈ Metainfo.ownKeys, key ≠ Vault.toUtf8 "comment" := by
    decide +kernel
  have all : AllWithin 2 (finished info extra announce comment).extra := by
    cases comment with
    | none => exact more
    | some text =>
      exact allWithin_insertText (by simp [writtenKeys]) more
        ((Metainfo.within_string (line text rfl)).mono (by decide))
  have lawful : (finished info extra announce comment).Lawful := by
    refine ⟨fits.dict.mono (by decide), all.sorted,
      fun entry member => (all.each entry member).1,
      fun entry member => (all.each entry member).2.mono (by decide),
      fun key own => ?_⟩
    cases comment with
    | none => exact apart key own
    | some text =>
      have inserted : (finished info extra announce (some text)).extra =
          insertText "comment" (string text) extra := rfl
      rw [inserted, insertText, Rust.BTreeMap.get_insert,
        if_neg (comment_ key own)]
      exact apart key own
  exact Metainfo.read_encode lawful (Metainfo.announces_announcingTo named
    (finished info extra announce comment))

end Written

theorem length_pieceLayer (content : Bytes) (height pieceLength : Nat) :
    (pieceLayer hashes content height pieceLength).length =
      divCeil content.length pieceLength * 32 := by
  rw [pieceLayer, Rust.length_flatMap_of_full, List.length_range]
  intro index _
  exact (treeNode hashes content height index).property

theorem divCeil_lt {size exponent : Nat} (large : 18 ≤ exponent)
    (small : (size : Int) ≤ Rust.i64Max) :
    divCeil size (2 ^ exponent) * 32 < u64Bound := by
  have piece : 2 ^ 18 ≤ 2 ^ exponent := Nat.pow_le_pow_right Nat.two_pos large
  have last := Rust.lt_divCeil_iff (Nat.two_pow_pos exponent) size
    (divCeil size (2 ^ exponent) - 1)
  have bound : Rust.i64Max = 2 ^ 63 - 1 := by decide
  by_cases none_ : divCeil size (2 ^ exponent) = 0
  · rw [none_]
    decide
  · have within := last.mp (by omega)
    have cut : (divCeil size (2 ^ exponent) - 1) * 2 ^ 18 ≤
        (divCeil size (2 ^ exponent) - 1) * 2 ^ exponent :=
      Nat.mul_le_mul_left _ piece
    rw [u64Bound]
    omega

theorem get_baseInfo {pieces : Bytes} (key : String) (other : key ≠ "private") :
    BTreeMap.get (baseInfo name pieceLength pieces isPrivate)
        (Vault.toUtf8 key) =
      if key = "pieces" then some (.bytes pieces)
      else if key = "piece length" then some (intOf pieceLength)
      else if key = "name" then some (string name)
      else none := by
  rw [baseInfo]
  cases isPrivate with
  | false =>
    simp only [Bool.false_eq_true, if_false]
    rw [get_insertText, get_insertText, get_insertText]
    rfl
  | true =>
    simp only [if_true]
    rw [get_insertText, if_neg other, get_insertText, get_insertText,
      get_insertText]
    rfl

/-- The info dictionary of a plain torrent over a file. -/
def plainInfo (hashes : Hashes) (content : Bytes) (name : String)
    (pieceLength : Nat) (isPrivate : Bool) : List (Bytes × Value) :=
  insertText "length" (intOf content.length)
    (baseInfo name pieceLength (digests hashes pieceLength content) isPrivate)

theorem get_plainInfo (key : String) (other : key ≠ "private") :
    BTreeMap.get (plainInfo hashes content name pieceLength isPrivate)
        (Vault.toUtf8 key) =
      if key = "length" then some (intOf content.length)
      else if key = "pieces" then
        some (.bytes (digests hashes pieceLength content))
      else if key = "piece length" then some (intOf pieceLength)
      else if key = "name" then some (string name)
      else none := by
  rw [plainInfo, get_insertText, get_baseInfo key other]

theorem describes_of_get {torrent : Metainfo.Torrent}
    (positive : 0 < pieceLength) (small : (pieceLength : Int) ≤ Rust.i64Max)
    (sized : (content.length : Int) ≤ Rust.i64Max)
    (same : ∀ key ∈ ["files", "length", "piece length", "pieces", "name"],
      torrent.infoField key = BTreeMap.get (plainInfo hashes content name
        pieceLength isPrivate) (Vault.toUtf8 key)) :
    torrent.name = some name ∧ Describes hashes content torrent := by
  refine ⟨?_, ?_, ?_, pieceLength, positive, ?_, ?_⟩
  · rw [Metainfo.Torrent.name, same _ (by simp), get_plainInfo _ (by decide)]
    exact Metainfo.asStr_string name
  · rw [same _ (by simp), get_plainInfo _ (by decide)]
    rfl
  · rw [same _ (by simp), get_plainInfo _ (by decide), if_pos rfl,
      intOf_of_le sized]
  · rw [same _ (by simp), get_plainInfo _ (by decide), if_neg (by decide),
      if_neg (by decide), if_pos rfl, intOf_of_le small]
  · rw [same _ (by simp), get_plainInfo _ (by decide), if_neg (by decide),
      if_pos rfl]

theorem get_intoInfo {v2 : V2Hashes} {info : List (Bytes × Value)}
    (tree : key ≠ "file tree") (version : key ≠ "meta version") :
    BTreeMap.get (v2.intoInfo name size info) (Vault.toUtf8 key) =
      BTreeMap.get info (Vault.toUtf8 key) := by
  rw [V2Hashes.intoInfo, get_insertText, if_neg tree, get_insertText,
    if_neg version]

theorem sourceFile_of_ok {path : String} {source : Nat × String}
    (found : sourceFile disk path = .ok source) :
    ∃ name, Rust.Path.fileName path = some name ∧
      source = ((disk path).content.length, name) := by
  unfold sourceFile at found
  split at found
  · cases found
  · split at found
    · cases found
    · split at found
      · cases found
      · rename_i name named
        cases found
        exact ⟨name, named, rfl⟩

theorem create_cases (readable : (disk request.path).Readable)
    (created : create hashes disk request = .ok built) :
    ∃ name exponent info extra,
      Rust.Path.fileName request.path = some name ∧
      18 ≤ exponent ∧ exponent ≤ 24 ∧
      built = finish hashes info extra request.announce request.comment
        (disk request.path).content.length ∧
      (info = plainInfo hashes (disk request.path).content name
          (2 ^ exponent) request.isPrivate ∧ extra = [] ∨
        ∃ v2 : V2Hashes, (∀ layer ∈ v2.layer, layer.length =
            divCeil (disk request.path).content.length (2 ^ exponent) * 32) ∧
          info = v2.intoInfo name (disk request.path).content.length
              (plainInfo hashes (disk request.path).content name
                (2 ^ exponent) request.isPrivate) ∧
            extra = v2.intoExtra []) := by
  obtain ⟨source, found, -⟩ := Rust.bind_eq_ok created
  obtain ⟨name, named, rfl⟩ := sourceFile_of_ok found
  obtain ⟨exponent, low, high, length⟩ :=
    pieceLengthFor_eq (disk request.path).content.length
  rw [create, found] at created
  dsimp only [bind, Except.bind] at created
  rw [length, hashPieces_eq hashes readable (Nat.two_pow_pos exponent),
    hashPiecesHybrid_eq readable (by omega : 14 ≤ exponent)] at created
  cases hybrid : request.hybrid with
  | false =>
    simp only [hybrid] at created
    cases created
    exact ⟨name, exponent, _, _, named, low, high, rfl, Or.inl ⟨rfl, rfl⟩⟩
  | true =>
    simp only [hybrid, if_true] at created
    cases created
    refine ⟨name, exponent, _, _, named, low, high, rfl,
      Or.inr ⟨_, fun layer given => ?_, rfl, rfl⟩⟩
    simp only at given
    split at given
    · cases given
    · cases given
      exact length_pieceLayer _ _ _

theorem allWithin_plainInfo (hashes : Hashes) (isPrivate : Bool)
    (low : 18 ≤ exponent) (sized : (content.length : Int) ≤ Rust.i64Max)
    (named : Metainfo.InMemory name) :
    AllWithin 1 (plainInfo hashes content name (2 ^ exponent) isPrivate) := by
  refine allWithin_insertText (by simp [writtenKeys])
    (allWithin_baseInfo named ?_) (within_intOf _)
  have few := divCeil_lt low sized
  rw [length_digests, Rust.length_chunks (Nat.two_pow_pos exponent)]
  omega

/-- What was built is read as the torrent, is known by its hashes and announces
to the set. -/
structure BuiltTorrent.Is (built : BuiltTorrent) (hashes : Hashes)
    (announce : AnnounceSet) (torrent : Metainfo.Torrent) : Prop where
  read : Metainfo.Torrent.readFromBytes built.data = .ok torrent
  infoHash : built.infoHash =
    torrent.infoHash fun bytes => (hashes.sha1 bytes).val
  infoHashV2 : built.infoHashV2 =
    torrent.infoHashV2 fun bytes => (hashes.sha256 bytes).val
  announces : torrent.announcingTo announce = torrent

/-- What was built over a file is a torrent that describes it under its name. -/
theorem create_is (readable : (disk request.path).Readable)
    (sized : ((disk request.path).content.length : Int) ≤ Rust.i64Max)
    (inMemory : request.InMemory)
    (created : create hashes disk request = .ok built) :
    ∃ torrent name, built.Is hashes request.announce torrent ∧
      Rust.Path.fileName request.path = some name ∧
        torrent.name = some name ∧
          Describes hashes (disk request.path).content torrent := by
  obtain ⟨name, exponent, info, extra, found, low, high, rfl, written⟩ :=
    create_cases readable created
  have small : ((2 ^ exponent : Nat) : Int) ≤ Rust.i64Max := by
    have most : 2 ^ exponent ≤ 2 ^ 24 := Nat.pow_le_pow_right Nat.two_pos high
    have bound : Rust.i64Max = 2 ^ 63 - 1 := by decide
    omega
  have plain := allWithin_plainInfo hashes request.isPrivate low sized
    (inMemory.name name found)
  rcases written with ⟨rfl, rfl⟩ | ⟨v2, layer, rfl, rfl⟩
  · have read := read_finished (plain.mono (by decide : 1 ≤ 4)) allWithin_nil
      inMemory.announce inMemory.comment fun key _ => rfl
    exact ⟨_, name, ⟨read, rfl, rfl, rfl⟩, found,
      describes_of_get (Nat.two_pow_pos exponent) small sized fun key _ => rfl⟩
  · have short : v2.Short := by
      intro hashes_ given
      rw [layer hashes_ given]
      exact divCeil_lt low sized
    have other : ∀ key ∈ Metainfo.ownKeys,
        key ≠ Vault.toUtf8 "piece layers" := by
      decide +kernel
    have apart : ∀ key ∈ Metainfo.ownKeys,
        BTreeMap.get (v2.intoExtra []) key = none := by
      intro key own
      rw [V2Hashes.intoExtra, insertText, Rust.BTreeMap.get_insert,
        if_neg (other key own)]
      rfl
    have fits : AllWithin 4 (v2.intoInfo name
        (disk request.path).content.length
          (plainInfo hashes (disk request.path).content name (2 ^ exponent)
            request.isPrivate)) :=
      allWithin_intoInfo (inMemory.name name found) plain
    have read := read_finished fits
      (allWithin_intoExtra short allWithin_nil) inMemory.announce
      inMemory.comment apart
    have free : ∀ key ∈ ["files", "length", "piece length", "pieces", "name"],
        key ≠ "file tree" ∧ key ≠ "meta version" := by
      decide
    exact ⟨_, name, ⟨read, rfl, rfl, rfl⟩, found,
      describes_of_get (Nat.two_pow_pos exponent) small sized
        fun key among => get_intoInfo (free key among).1 (free key among).2⟩

end Build

/-- A disk of empty files. -/
def emptyDisk : Disk := fun _ => ⟨[], true, .ok (), .ok (), fun _ => .ok 0⟩

/-- Files of three bytes, read two at a time. -/
def smallDisk : Disk := fun _ =>
  ⟨[1, 2, 3], true, .ok (), .ok (), fun _ => .ok 2⟩

def smallRequest : TorrentRequest where
  path := "/m/a.mkv"
  announce := Metainfo.movedSet
  comment := some "1080p"
  isPrivate := true
  hybrid := false

theorem smallRequest_inMemory : smallRequest.InMemory := by
  have named : Rust.Path.fileName "/m/a.mkv" = some "a.mkv" := by
    decide +kernel
  refine ⟨fun name found => ?_, ?_, fun comment found => ?_⟩
  · rw [smallRequest, named] at found
    cases found
    unfold InMemory
    decide +kernel
  · unfold Metainfo.InMemorySet InMemory
    decide +kernel
  · cases found
    unfold InMemory
    decide +kernel

end Factory

end Sharerr
