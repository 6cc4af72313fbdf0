import Sharerr.Torrent.Factory

/-!
# The buffer a check reads into

A check of a friend's torrent reads the file in pieces of the length that the
torrent gives, into one buffer of that length.  What is asked of the allocator
is written down beside the result.
-/

namespace Sharerr

namespace Factory

open Rust (chunks divCeil u64Bound BTreeMap.get)

/-- A result, and the buffers asked for on the way to it, by their bytes. -/
structure Asked (α : Type) where
  result : Except TorrentError α
  buffers : List Nat

/-- `usize::try_from(piece_length).unwrap_or(usize::MAX)`, of 64 bits. -/
def chunkOf (pieceLength : Nat) : Nat := min pieceLength (u64Bound - 1)

variable {σ : Type}

/-- `for_each_piece`, which asks for its buffer once the files are open. -/
def forEachPieceAsked (disk : Disk) (path : String) (others : List String)
    (pieceLength : Nat) (onPiece : σ → Bytes → σ × Bool) (state : σ) :
    Asked σ :=
  match (path :: others).mapM (openFile disk) with
  | .error reason => ⟨.error reason, []⟩
  | .ok stream =>
    { result := (eachPiece pieceLength onPiece
        ((Stream.content stream).length + 1) stream state).mapError
          (.build path)
      buffers := [chunkOf pieceLength] }

/-- `verify_single_file`. -/
def verifySingleFileAsked (hashes : Hashes) (disk : Disk) (path : String)
    (torrent : Metainfo.Torrent) : Asked Bool :=
  match torrent.pieceLength, torrent.pieces with
  | some pieceLength, some expected =>
    if torrent.isSingleFile = false ∨ pieceLength = 0 ∨
        expected.length % 20 ≠ 0 then ⟨.ok false, []⟩
    else
      match (disk path).metadata with
      | .error source => ⟨.error (.unreadable path source), []⟩
      | .ok () =>
        let size := (disk path).content.length
        if size ≠ torrent.contentLength ∨
            divCeil size pieceLength ≠ expected.length / 20 then
          ⟨.ok false, []⟩
        else
          let read := forEachPieceAsked disk path [] pieceLength
            (matchPiece hashes) (true, chunks 20 expected)
          { result := do
              let (matched, expected) ← read.result
              return matched && expected.isEmpty
            buffers := read.buffers }
  | _, _ => ⟨.ok false, []⟩

theorem forEachPieceAsked_result (disk : Disk) (path : String)
    (others : List String) (pieceLength : Nat)
    (onPiece : σ → Bytes → σ × Bool) (state : σ) :
    (forEachPieceAsked disk path others pieceLength onPiece state).result =
      forEachPiece disk path others pieceLength onPiece state := by
  rw [forEachPieceAsked, forEachPiece]
  cases (path :: others).mapM (openFile disk) <;> rfl

theorem verifySingleFileAsked_result (hashes : Hashes) (disk : Disk)
    (path : String) (torrent : Metainfo.Torrent) :
    (verifySingleFileAsked hashes disk path torrent).result =
      verifySingleFile hashes disk path torrent := by
  rw [verifySingleFileAsked, verifySingleFile]
  cases torrent.pieceLength with
  | none => rfl
  | some pieceLength =>
    cases torrent.pieces with
    | none => rfl
    | some expected =>
      dsimp only
      by_cases bad : torrent.isSingleFile = false ∨ pieceLength = 0 ∨
          expected.length % 20 ≠ 0
      · rw [if_pos bad, if_pos bad]
      · rw [if_neg bad, if_neg bad]
        cases (disk path).metadata with
        | error source => rfl
        | ok _ =>
          dsimp only
          by_cases off : (disk path).content.length ≠
              torrent.contentLength ∨
              divCeil (disk path).content.length pieceLength ≠
                expected.length / 20
          · rw [if_pos off, if_pos off]
          · rw [if_neg off, if_neg off, forEachPieceAsked_result]

section Reads

variable {hashes : Hashes} {disk : Disk} {path : String}
variable {torrent : Metainfo.Torrent} {pieceLength : Nat}

/-- The check gets as far as reading the file, in pieces of this length. -/
structure Reads (disk : Disk) (path : String) (torrent : Metainfo.Torrent)
    (pieceLength : Nat) : Prop where
  stated : torrent.pieceLength = some pieceLength
  pieces : ∃ expected, torrent.pieces = some expected ∧
    expected.length % 20 = 0 ∧
    divCeil (disk path).content.length pieceLength = expected.length / 20
  single : torrent.isSingleFile = true
  metadata : (disk path).metadata = .ok ()
  length : (disk path).content.length = torrent.contentLength
  opening : (disk path).opening = .ok ()

theorem buffers_of_reads (reads : Reads disk path torrent pieceLength) :
    (verifySingleFileAsked hashes disk path torrent).buffers =
      [chunkOf pieceLength] := by
  obtain ⟨expected, given, even, count⟩ := reads.pieces
  have positive : pieceLength ≠ 0 :=
    Nat.pos_iff_ne_zero.mp (pieceLength_eq_some.mp reads.stated).1
  have opened : [path].mapM (openFile disk) =
      .ok [⟨(disk path).content, 0, (disk path).reads⟩] := by
    simp only [List.mapM_cons, List.mapM_nil, openFile, reads.opening]
    rfl
  rw [verifySingleFileAsked, reads.stated, given]
  dsimp only
  rw [if_neg (by simp [reads.single, positive, even]), reads.metadata]
  dsimp only
  rw [if_neg (by simp [reads.length.symm, count]), forEachPieceAsked, opened]

theorem reads_of_buffer {buffer : Nat}
    (asked : buffer ∈
      (verifySingleFileAsked hashes disk path torrent).buffers) :
    ∃ pieceLength, Reads disk path torrent pieceLength := by
  unfold verifySingleFileAsked at asked
  split at asked
  · rename_i pieceLength expected stated given
    split at asked
    · cases asked
    · rename_i good
      split at asked
      · cases asked
      · rename_i metadata
        dsimp only at asked
        split at asked
        · cases asked
        · rename_i fitting
          rw [not_or, not_or] at good
          rw [not_or, not_not, not_not] at fitting
          refine ⟨pieceLength, stated, ⟨expected, given, ?_, fitting.2⟩, ?_,
            metadata, fitting.1, ?_⟩
          · simpa using good.2.2
          · simpa using good.1
          · cases opened : (disk path).opening with
            | ok _ => rfl
            | error source =>
              rw [forEachPieceAsked, List.mapM_cons, openFile, opened]
                at asked
              cases asked
  · cases asked

theorem chunkOf_of_read {bytes : Bytes}
    (read : Metainfo.Torrent.readFromBytes bytes = .ok torrent)
    (stated : torrent.pieceLength = some pieceLength) :
    chunkOf pieceLength = pieceLength := by
  have field := (pieceLength_eq_some.mp stated).2
  have fits := (Metainfo.lawful_of_read read).info.wellFormed
  cases fits with
  | dict _ _ all =>
    have wellFormed := all _ (Rust.BTreeMap.mem_of_get field)
    cases wellFormed with
    | int _ high =>
      have bound : Rust.i64Max < u64Bound := by decide
      exact Nat.min_eq_left (by omega)

/-- The length of the file, or the largest buffer that a build reads into. -/
def bufferBound (disk : Disk) (path : String) : Nat :=
  max (disk path).content.length (16 * mib)

/-- The check of a torrent keeps to the bound exactly where the piece length
it gives does, or where it does not come to reading. -/
theorem verify_buffer_bounded_iff (hashes : Hashes) (disk : Disk)
    (path : String) {bytes : Bytes}
    (read : Metainfo.Torrent.readFromBytes bytes = .ok torrent) :
    (∀ buffer ∈ (verifySingleFileAsked hashes disk path torrent).buffers,
      buffer ≤ bufferBound disk path) ↔
      ∀ pieceLength, Reads disk path torrent pieceLength →
        pieceLength ≤ bufferBound disk path := by
  constructor
  · intro bounded pieceLength reads
    rw [buffers_of_reads reads, chunkOf_of_read read reads.stated] at bounded
    exact bounded pieceLength List.mem_cons_self
  · intro stated buffer asked
    obtain ⟨pieceLength, reads⟩ := reads_of_buffer asked
    rw [buffers_of_reads reads, chunkOf_of_read read reads.stated,
      List.mem_singleton] at asked
    rw [asked]
    exact stated pieceLength reads

end Reads

/-- A torrent of three bytes in one piece, which is given as this long. -/
def onePieceFile (pieceLength : String) : Bytes :=
  Vault.toUtf8 ("d4:infod6:lengthi3e4:name5:a.mkv12:piece lengthi" ++
    pieceLength ++ "e6:pieces20:aaaaaaaaaaaaaaaaaaaaee")

theorem short_piece_bounded :
    ∃ torrent, Metainfo.Torrent.readFromBytes (onePieceFile "16384") =
        .ok torrent ∧
      ∀ buffer ∈ (verifySingleFileAsked prefixHashes smallDisk "/m/a.mkv"
        torrent).buffers, buffer ≤ bufferBound smallDisk "/m/a.mkv" := by
  have given : ∃ torrent, Metainfo.Torrent.readFromBytes
      (onePieceFile "16384") = .ok torrent ∧
      torrent.pieceLength = some 16384 := ⟨_, rfl, by decide +kernel⟩
  obtain ⟨torrent, read, stated⟩ := given
  refine ⟨torrent, read, (verify_buffer_bounded_iff prefixHashes smallDisk
    "/m/a.mkv" read).mpr fun pieceLength reads => ?_⟩
  rw [reads.stated] at stated
  cases stated
  decide

/-- A friend's torrent of the file, of its name and its length, and not a
hybrid, has the check ask for all of the address space. -/
theorem huge_piece_unbounded :
    ∃ torrent, Metainfo.Torrent.readFromBytes
        (onePieceFile "9223372036854775807") = .ok torrent ∧
      (onePieceFile "9223372036854775807").length ≤ 16 * mib ∧
      torrent.isSingleFile = true ∧
      torrent.name = Rust.Path.fileName "/m/a.mkv" ∧
      torrent.infoHashV2 (fun bytes => (prefixHashes.sha256 bytes).val) =
        none ∧
      torrent.contentLength = (smallDisk "/m/a.mkv").content.length ∧
      (verifySingleFileAsked prefixHashes smallDisk "/m/a.mkv"
        torrent).buffers = [9223372036854775807] ∧
      bufferBound smallDisk "/m/a.mkv" < 9223372036854775807 := by
  refine ⟨_, rfl, ?_, ?_, ?_, ?_, ?_, ?_, ?_⟩
  all_goals decide +kernel

end Factory

end Sharerr
