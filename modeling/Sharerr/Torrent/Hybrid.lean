import Sharerr.Merkle.Tree
import Sharerr.Torrent.Pieces

/-!
# The hashes of a hybrid torrent

The tree of BEP 52 stands over the blocks of a file.  It is computed in the same
read as the piece hashes: a subtree for each piece, and a tree over those.
-/

namespace Sharerr

namespace Factory

open Rust (chunks divCeil)

def v2Block : Nat := 16 * 1024

/-- `[0; 32]`. -/
def zeroLeaf : Digest 32 := ⟨List.replicate 32 0, List.length_replicate⟩

/-- The digest of two digests, one after the other. -/
def Hashes.combine (hashes : Hashes) (left right : Digest 32) : Digest 32 :=
  hashes.sha256 (left.val ++ right.val)

/-- `Vec::resize`. -/
def resize {α : Type} (items : List α) (width : Nat) (pad : α) : List α :=
  items.take width ++ List.replicate (width - items.length) pad

/-- A layer is made shorter by each round, so there are no more rounds than it
is wide at first. -/
def merkleRoot (hashes : Hashes) (leaves : List (Digest 32)) (width : Nat)
    (pad : Digest 32) : Digest 32 :=
  (Merkle.reduce hashes.combine (max width 1)
    (resize leaves (max width 1) pad)).headD pad

/-- `usize::next_power_of_two`. -/
def nextPowerOfTwo (count : Nat) : Nat := 2 ^ Nat.clog 2 count

structure V2Hashes where
  root : Option (Digest 32)
  layer : Option Bytes

/-- What is kept of the pieces while they are read. -/
structure HybridRead where
  pieces : Bytes := []
  pieceHashes : List (Digest 32) := []
  firstPieceLeaves : List (Digest 32) := []

def pieceLeaves (hashes : Hashes) (piece : Bytes) : List (Digest 32) :=
  (chunks v2Block piece).map hashes.sha256

def HybridRead.step (hashes : Hashes) (blocksPerPiece : Nat)
    (read : HybridRead) (piece : Bytes) : HybridRead where
  pieces := read.pieces ++ (hashes.sha1 piece).val
  pieceHashes := read.pieceHashes ++
    [merkleRoot hashes (pieceLeaves hashes piece) blocksPerPiece zeroLeaf]
  firstPieceLeaves :=
    if read.pieceHashes = [] then pieceLeaves hashes piece
    else read.firstPieceLeaves

/-- The leaves of one piece are padded to a power of two of their own, the
pieces of several with the hash of one that is all zero. -/
def v2Hashes (hashes : Hashes) (blocksPerPiece : Nat) (read : HybridRead) :
    V2Hashes :=
  match read.pieceHashes with
  | [] => ⟨none, none⟩
  | [_] =>
    ⟨some (merkleRoot hashes read.firstPieceLeaves
      (nextPowerOfTwo read.firstPieceLeaves.length) zeroLeaf), none⟩
  | pieceHashes =>
    let zeroPiece := merkleRoot hashes [] blocksPerPiece zeroLeaf
    ⟨some (merkleRoot hashes pieceHashes (nextPowerOfTwo pieceHashes.length)
      zeroPiece), some (pieceHashes.flatMap Subtype.val)⟩

def hashPiecesHybrid (hashes : Hashes) (disk : Disk) (path : String)
    (pieceLength : Nat) : Except TorrentError (Bytes × V2Hashes) := do
  let blocksPerPiece := max (pieceLength / v2Block) 1
  let read ← forEachPiece disk path [] pieceLength (fun read piece =>
    (HybridRead.step hashes blocksPerPiece read piece, true)) {}
  return (read.pieces, v2Hashes hashes blocksPerPiece read)

/-- The hashes of the blocks of a content. -/
def blocks (hashes : Hashes) (content : Bytes) : List (Digest 32) :=
  (chunks v2Block content).map hashes.sha256

/-- The nodes of the tree over the blocks, the missing ones zero. -/
def treeNode (hashes : Hashes) (content : Bytes) : Nat → Nat → Digest 32 :=
  Merkle.node hashes.combine (Merkle.padded (blocks hashes content) zeroLeaf)

/-- Its root, of the height the blocks need. -/
def piecesRoot (hashes : Hashes) (content : Bytes) : Option (Digest 32) :=
  if content = [] then none
  else some (treeNode hashes content
    (Nat.clog 2 (blocks hashes content).length) 0)

/-- As many nodes of a layer as the content has pieces. -/
def pieceLayer (hashes : Hashes) (content : Bytes) (height pieceLength : Nat) :
    Bytes :=
  (List.range (divCeil content.length pieceLength)).flatMap fun index =>
    (treeNode hashes content height index).val

section Root

variable {hashes : Hashes} {leaves : List (Digest 32)} {pad : Digest 32}

theorem merkleRoot_eq {height : Nat} (fits : leaves.length ≤ 2 ^ height) :
    merkleRoot hashes leaves (2 ^ height) pad =
      Merkle.node hashes.combine (Merkle.padded leaves pad) height 0 := by
  have wide : max (2 ^ height) 1 = 2 ^ height :=
    Nat.max_eq_left (Nat.two_pow_pos height)
  have enough : height ≤ 2 ^ height := Nat.le_of_lt Nat.lt_two_pow_self
  rw [merkleRoot, wide, resize, List.take_of_length_le fits,
    Merkle.filled_eq_range fits, Merkle.reduce_full enough, List.headD_cons]

theorem le_nextPowerOfTwo (count : Nat) : count ≤ nextPowerOfTwo count :=
  Nat.le_pow_clog Nat.one_lt_two count

theorem merkleRoot_nextPowerOfTwo :
    merkleRoot hashes leaves (nextPowerOfTwo leaves.length) pad =
      Merkle.node hashes.combine (Merkle.padded leaves pad)
        (Nat.clog 2 leaves.length) 0 :=
  merkleRoot_eq (le_nextPowerOfTwo _)

end Root

section Blocks

variable {hashes : Hashes} {content : Bytes}

theorem v2Block_pos : 0 < v2Block := by
  decide

theorem padded_blocks (index : Nat) :
    Merkle.padded (blocks hashes content) zeroLeaf index =
      if index * v2Block < content.length then
        hashes.sha256 ((content.drop (index * v2Block)).take v2Block)
      else zeroLeaf := by
  rw [Merkle.padded, List.getD_eq_getElem?_getD, blocks, List.getElem?_map,
    Rust.getElem?_chunks v2Block_pos]
  split <;> rfl

theorem padded_piece {count index offset : Nat} (within : offset < count) :
    Merkle.padded (pieceLeaves hashes
        ((content.drop (index * (count * v2Block))).take (count * v2Block)))
      zeroLeaf offset =
    Merkle.padded (blocks hashes content) zeroLeaf
      (index * count + offset) := by
  have place : (index * count + offset) * v2Block =
      index * (count * v2Block) + offset * v2Block := by
    rw [Nat.add_mul, Nat.mul_assoc]
  have inside : (offset + 1) * v2Block ≤ count * v2Block :=
    Nat.mul_le_mul_right _ within
  rw [Nat.succ_mul] at inside
  have positive := v2Block_pos
  have same : (((content.drop (index * (count * v2Block))).take
      (count * v2Block)).drop (offset * v2Block)).take v2Block =
        (content.drop (index * (count * v2Block) + offset * v2Block)).take
          v2Block := by
    rw [List.drop_take, List.take_take, List.drop_drop,
      Nat.min_eq_left (by omega)]
  have there : offset * v2Block <
      ((content.drop (index * (count * v2Block))).take
        (count * v2Block)).length ↔
      index * (count * v2Block) + offset * v2Block < content.length := by
    rw [List.length_take, List.length_drop]
    omega
  have mine : pieceLeaves hashes ((content.drop
      (index * (count * v2Block))).take (count * v2Block)) =
    blocks hashes ((content.drop
      (index * (count * v2Block))).take (count * v2Block)) := rfl
  rw [mine, padded_blocks, padded_blocks, place, same]
  simp only [there]

theorem merkleRoot_piece (hashes : Hashes) (content : Bytes)
    (height index : Nat) :
    merkleRoot hashes (pieceLeaves hashes
        ((content.drop (index * (2 ^ height * v2Block))).take
          (2 ^ height * v2Block))) (2 ^ height) zeroLeaf =
      treeNode hashes content height index := by
  have fits : (pieceLeaves hashes ((content.drop
      (index * (2 ^ height * v2Block))).take
        (2 ^ height * v2Block))).length ≤ 2 ^ height := by
    rw [pieceLeaves, List.length_map, Rust.length_chunks v2Block_pos]
    refine Nat.le_of_not_lt fun more => ?_
    have beyond := (Rust.lt_divCeil_iff v2Block_pos _ _).mp more
    rw [List.length_take] at beyond
    omega
  rw [merkleRoot_eq fits, treeNode]
  refine Merkle.node_congr fun offset small => ?_
  rw [Nat.zero_mul, Nat.zero_add]
  exact padded_piece small

theorem treeNode_beyond {height index : Nat}
    (beyond : content.length ≤ index * (2 ^ height * v2Block)) :
    treeNode hashes content height index =
      merkleRoot hashes [] (2 ^ height) zeroLeaf := by
  have piece := merkleRoot_piece hashes content height index
  rw [List.drop_eq_nil_of_le beyond, List.take_nil] at piece
  exact piece.symm

/-- The tree over the piece hashes is the upper part of the tree. -/
theorem node_pieces (hashes : Hashes) (content : Bytes) (height : Nat)
    {pieceHashes : List (Digest 32)}
    (each : pieceHashes = (List.range (divCeil content.length
      (2 ^ height * v2Block))).map (treeNode hashes content height)) :
    Merkle.padded pieceHashes (merkleRoot hashes [] (2 ^ height) zeroLeaf) =
      treeNode hashes content height := by
  have positive : 0 < 2 ^ height * v2Block :=
    Nat.mul_pos (Nat.two_pow_pos height) v2Block_pos
  funext index
  rw [Merkle.padded, List.getD_eq_getElem?_getD, each, List.getElem?_map]
  by_cases there : index < divCeil content.length (2 ^ height * v2Block)
  · rw [List.getElem?_range there]
    rfl
  · have none_ : (List.range (divCeil content.length
        (2 ^ height * v2Block)))[index]? = none :=
      List.getElem?_eq_none_iff.mpr (by
        rw [List.length_range]
        exact Nat.le_of_not_lt there)
    rw [none_]
    refine (treeNode_beyond (Nat.le_of_not_lt fun within => there ?_)).symm
    exact (Rust.lt_divCeil_iff positive _ _).mpr within

theorem clog_blocks {height : Nat}
    (several : 2 ≤ divCeil content.length (2 ^ height * v2Block)) :
    Nat.clog 2 (blocks hashes content).length = height +
      Nat.clog 2 (divCeil content.length (2 ^ height * v2Block)) := by
  have positive : 0 < 2 ^ height * v2Block :=
    Nat.mul_pos (Nat.two_pow_pos height) v2Block_pos
  have pieces := Rust.lt_divCeil_iff positive content.length
  have wide := Rust.lt_divCeil_iff v2Block_pos content.length
  rw [blocks, List.length_map, Rust.length_chunks v2Block_pos]
  apply Merkle.clog_groups several
  · refine Nat.le_of_not_lt fun more => ?_
    have within := (wide _).mp more
    rw [Nat.mul_assoc] at within
    exact Nat.lt_irrefl _ ((pieces _).mpr within)
  · have last := (pieces _).mp (Nat.sub_lt
      (Nat.lt_of_lt_of_le Nat.two_pos several) Nat.one_pos)
    rw [← Nat.mul_assoc] at last
    exact (wide _).mpr last

end Blocks

section Read

variable {hashes : Hashes} {blocksPerPiece : Nat}

theorem pieces_foldl (parts : List Bytes) (read : HybridRead) :
    (parts.foldl (HybridRead.step hashes blocksPerPiece) read).pieces =
      read.pieces ++ parts.flatMap fun piece => (hashes.sha1 piece).val := by
  induction parts generalizing read with
  | nil => rw [List.foldl_nil, List.flatMap_nil, List.append_nil]
  | cons piece parts ih =>
    rw [List.foldl_cons, ih, List.flatMap_cons, HybridRead.step,
      List.append_assoc]

theorem pieceHashes_foldl (parts : List Bytes) (read : HybridRead) :
    (parts.foldl (HybridRead.step hashes blocksPerPiece) read).pieceHashes =
      read.pieceHashes ++ parts.map fun piece =>
        merkleRoot hashes (pieceLeaves hashes piece) blocksPerPiece
          zeroLeaf := by
  induction parts generalizing read with
  | nil => rw [List.foldl_nil, List.map_nil, List.append_nil]
  | cons piece parts ih =>
    rw [List.foldl_cons, ih, HybridRead.step, List.map_cons,
      List.append_assoc, List.singleton_append]

variable {content : Bytes}

/-- The hashes of the pieces make the root and the layer of the one tree. -/
theorem v2Hashes_foldl (height : Nat) :
    v2Hashes hashes (2 ^ height)
        ((chunks (2 ^ height * v2Block) content).foldl
          (HybridRead.step hashes (2 ^ height)) {}) =
      ⟨piecesRoot hashes content,
        if divCeil content.length (2 ^ height * v2Block) ≤ 1 then none
        else some (pieceLayer hashes content height
          (2 ^ height * v2Block))⟩ := by
  have positive : 0 < 2 ^ height * v2Block :=
    Nat.mul_pos (Nat.two_pow_pos height) v2Block_pos
  have hashed : ((chunks (2 ^ height * v2Block) content).foldl
      (HybridRead.step hashes (2 ^ height)) {}).pieceHashes =
        (List.range (divCeil content.length (2 ^ height * v2Block))).map
          (treeNode hashes content height) := by
    rw [pieceHashes_foldl, List.nil_append, Rust.chunks_eq_range positive,
      List.map_map]
    exact List.map_congr_left fun index _ =>
      merkleRoot_piece _ _ height index
  have pieces := Rust.lt_divCeil_iff positive content.length
  rcases Nat.lt_trichotomy
      (divCeil content.length (2 ^ height * v2Block)) 1 with none_ | one | many
  · -- No piece: an empty file.
    have empty : content = [] := by
      by_contra some_
      have first := (pieces 0).mpr (by
        rw [Nat.zero_mul]
        exact List.length_pos_iff.mpr some_)
      omega
    rw [Nat.lt_one_iff.mp none_, List.range_zero, List.map_nil] at hashed
    rw [v2Hashes, hashed, piecesRoot, if_pos empty,
      if_pos (Nat.le_of_lt none_)]
  · -- One piece: the file is no longer than that.
    have nonempty : content ≠ [] := by
      intro empty
      have first := (pieces 0).mp (by omega)
      rw [empty, Nat.zero_mul] at first
      exact Nat.lt_irrefl _ first
    have short : content.length ≤ 2 ^ height * v2Block := by
      have last := mt (pieces 1).mpr (by omega)
      omega
    rw [one, List.range_one, List.map_singleton] at hashed
    have whole := Rust.chunks_of_short positive nonempty short
    rw [whole] at hashed ⊢
    have leaves : ([content].foldl (HybridRead.step hashes (2 ^ height))
        {}).firstPieceLeaves = blocks hashes content := rfl
    rw [v2Hashes, hashed, leaves, piecesRoot, if_neg nonempty,
      if_pos (Nat.le_of_eq one)]
    simp only [merkleRoot_nextPowerOfTwo]
    rfl
  · -- Several: the upper part of the tree stands over the hashes of them.
    have nonempty : content ≠ [] := by
      intro empty
      have first := (pieces 0).mp (by omega)
      rw [empty, Nat.zero_mul] at first
      exact Nat.lt_irrefl _ first
    have count : ((List.range (divCeil content.length
        (2 ^ height * v2Block))).map
          (treeNode hashes content height)).length =
        divCeil content.length (2 ^ height * v2Block) := by
      rw [List.length_map, List.length_range]
    have upper := node_pieces hashes content height rfl
    have root : merkleRoot hashes ((List.range (divCeil content.length
        (2 ^ height * v2Block))).map (treeNode hashes content height))
        (nextPowerOfTwo ((List.range (divCeil content.length
          (2 ^ height * v2Block))).map
            (treeNode hashes content height)).length)
        (merkleRoot hashes [] (2 ^ height) zeroLeaf) =
      treeNode hashes content
        (Nat.clog 2 (blocks hashes content).length) 0 := by
      rw [merkleRoot_nextPowerOfTwo, upper, count, clog_blocks many]
      exact (Merkle.node_add _ _ _).symm
    obtain ⟨first, second, rest, shape⟩ : ∃ first second rest,
        (List.range (divCeil content.length (2 ^ height * v2Block))).map
          (treeNode hashes content height) = first :: second :: rest := by
      match (List.range (divCeil content.length (2 ^ height * v2Block))).map
          (treeNode hashes content height), count with
      | [], count => simp at count; omega
      | [_], count => simp at count; omega
      | first :: second :: rest, _ => exact ⟨first, second, rest, rfl⟩
    have layer : pieceLayer hashes content height (2 ^ height * v2Block) =
        (first :: second :: rest).flatMap Subtype.val := by
      rw [← shape, List.flatMap_map]
      rfl
    rw [shape] at hashed root
    rw [v2Hashes, hashed, piecesRoot, if_neg nonempty,
      if_neg (Nat.not_le_of_lt many), layer]
    simp only [root]

theorem hashPiecesHybrid_eq {disk : Disk} {path : String}
    (readable : (disk path).Readable) {exponent : Nat}
    (above : 14 ≤ exponent) :
    hashPiecesHybrid hashes disk path (2 ^ exponent) = .ok
      (digests hashes (2 ^ exponent) (disk path).content,
        ⟨piecesRoot hashes (disk path).content,
          if divCeil (disk path).content.length (2 ^ exponent) ≤ 1 then none
          else some (pieceLayer hashes (disk path).content (exponent - 14)
            (2 ^ exponent))⟩) := by
  have block : v2Block = 2 ^ 14 := rfl
  have split : 2 ^ exponent = 2 ^ (exponent - 14) * v2Block := by
    rw [block, ← Nat.pow_add, Nat.sub_add_cancel above]
  have perPiece : max (2 ^ exponent / v2Block) 1 = 2 ^ (exponent - 14) := by
    rw [split, Nat.mul_div_cancel _ v2Block_pos]
    exact Nat.max_eq_left (Nat.two_pow_pos _)
  rw [hashPiecesHybrid, forEachPiece_eq readable (Nat.two_pow_pos exponent),
    feed_of_always, perPiece]
  simp only [bind, Except.bind, pure, Except.pure]
  rw [pieces_foldl, split, v2Hashes_foldl, List.nil_append]
  rfl

/-- For a readable file, and pieces of a power of two of bytes that are no
shorter than a block, the hybrid hashes are the piece hashes, the root of the
one tree and, of a file of several pieces, the layer above the pieces. -/
theorem hash_pieces_hybrid_agrees (hashes : Hashes) (disk : Disk)
    (path : String) (readable : (disk path).Readable) (exponent : Nat)
    (large : v2Block ≤ 2 ^ exponent) :
    ∃ pieces v2,
      hashPiecesHybrid hashes disk path (2 ^ exponent) = .ok (pieces, v2) ∧
      hashPieces hashes disk path [] (2 ^ exponent) = .ok pieces ∧
      v2.root = piecesRoot hashes (disk path).content ∧
      v2.layer =
        if divCeil (disk path).content.length (2 ^ exponent) ≤ 1 then none
        else some (pieceLayer hashes (disk path).content (exponent - 14)
          (2 ^ exponent)) := by
  have block : v2Block = 2 ^ 14 := rfl
  rw [block] at large
  have above : 14 ≤ exponent := (Nat.pow_le_pow_iff_right Nat.one_lt_two).mp
    large
  exact ⟨_, _, hashPiecesHybrid_eq readable above,
    hashPieces_eq hashes readable (Nat.two_pow_pos exponent), rfl, rfl⟩

/-- A disk on which every file is a byte longer than a block and is read a byte
at a time; its digests are the first bytes. -/
def slowDisk : Disk := fun _ =>
  ⟨List.replicate (16 * 1024 + 1) 7, true, .ok (), .ok (), fun _ => .ok 1⟩

def firstBytes (length : Nat) (bytes : Bytes) : Digest length :=
  ⟨(bytes ++ List.replicate length 0).take length, by
    rw [List.length_take, List.length_append, List.length_replicate]
    omega⟩

def prefixHashes : Hashes := ⟨firstBytes 20, firstBytes 32⟩

theorem slow_file_hashed :
    ∃ pieces v2,
      hashPiecesHybrid prefixHashes slowDisk "/m/a.mkv" (2 ^ 14) =
        .ok (pieces, v2) ∧
      hashPieces prefixHashes slowDisk "/m/a.mkv" [] (2 ^ 14) = .ok pieces ∧
      v2.root = piecesRoot prefixHashes (slowDisk "/m/a.mkv").content ∧
      v2.layer = some (pieceLayer prefixHashes (slowDisk "/m/a.mkv").content 0
        (2 ^ 14)) := by
  obtain ⟨pieces, v2, hybrid, plain, root, layer⟩ :=
    hash_pieces_hybrid_agrees prefixHashes slowDisk "/m/a.mkv"
      ⟨rfl, rfl, fun _ => ⟨1, rfl⟩⟩ 14 (Nat.le_refl _)
  refine ⟨pieces, v2, hybrid, plain, root, layer.trans ?_⟩
  have several : ¬ divCeil (slowDisk "/m/a.mkv").content.length (2 ^ 14) ≤
      1 := by
    rw [slowDisk, List.length_replicate]
    decide
  exact if_neg several

end Read

end Factory

end Sharerr
