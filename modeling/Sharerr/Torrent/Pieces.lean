import Sharerr.Rust.Chunks
import Sharerr.Rust.Traverse
import Sharerr.Torrent.Info

/-!
# Reading files in pieces

Files are read as one stream, a buffer of the piece length at a time.  A read
hands over as much as it likes of what is left, so a buffer is filled by as many
reads as it takes.
-/

namespace Sharerr

namespace Factory

/-- A digest of so many bytes. -/
abbrev Digest (length : Nat) := { bytes : Bytes // bytes.length = length }

structure Hashes where
  sha1 : Bytes → Digest 20
  sha256 : Bytes → Digest 32

inductive TorrentError where
  | unreadable (path source : String)
  | notAFile (path : String)
  | noFileName (path : String)
  | build (path source : String)
deriving DecidableEq, Repr

/-- A file on disk: its bytes, and how it goes when it is looked at, opened, and
read from a place. -/
structure OnDisk where
  content : Bytes
  isFile : Bool
  metadata : Except String Unit
  opening : Except String Unit
  reads : Nat → Except String Nat

abbrev Disk := String → OnDisk

/-- A file that is open. -/
structure Reader where
  rest : Bytes
  place : Nat
  reads : Nat → Except String Nat

/-- `File::read` into a buffer with some room: at least a byte of what is left,
and at most what there is room for. -/
def Reader.read (room : Nat) (file : Reader) :
    Except String (Bytes × Reader) := do
  let wish ← file.reads file.place
  let count := min (max wish 1) room
  return (file.rest.take count,
    { file with
      rest := file.rest.drop count
      place := file.place + (file.rest.take count).length })

/-- Files that are read one after the other. -/
abbrev Stream := List Reader

/-- `Chain::read`. -/
def Stream.read (room : Nat) : Stream → Except String (Bytes × Stream)
  | [] => .ok ([], [])
  | file :: files => do
      let (got, file) ← file.read room
      if got = [] then Stream.read room files
      else return (got, file :: files)

/-- What is left of the files. -/
def Stream.content (stream : Stream) : Bytes := stream.flatMap Reader.rest

/-- Reads until the buffer is full or the files end.  Every read but the last
takes up room, so there are no more of them than there is room at first. -/
def fill : Nat → Nat → Stream → Except String (Bytes × Stream)
  | 0, _, stream => .ok ([], stream)
  | budget + 1, room, stream =>
    if room = 0 then .ok ([], stream)
    else do
      let (got, stream) ← stream.read room
      if got = [] then return ([], stream)
      let (more, stream) ← fill budget (room - got.length) stream
      return (got ++ more, stream)

variable {σ : Type}

/-- Piece after piece, until `onPiece` says so or one is not full. -/
def eachPiece (chunk : Nat) (onPiece : σ → Bytes → σ × Bool) :
    Nat → Stream → σ → Except String σ
  | 0, _, state => .ok state
  | budget + 1, stream, state => do
      let (piece, stream) ← fill chunk chunk stream
      if piece = [] then return state
      let (state, more) := onPiece state piece
      if !more || decide (piece.length < chunk) then return state
      eachPiece chunk onPiece budget stream state

def openFile (disk : Disk) (path : String) : Except TorrentError Reader :=
  match (disk path).opening with
  | .error source => .error (.build path source)
  | .ok () => .ok ⟨(disk path).content, 0, (disk path).reads⟩

/-- The callback and what it captures are a step and its state.  Every round but
the last takes a piece out of the files. -/
def forEachPiece (disk : Disk) (path : String) (others : List String)
    (pieceLength : Nat) (onPiece : σ → Bytes → σ × Bool) (state : σ) :
    Except TorrentError σ := do
  let stream ← (path :: others).mapM (openFile disk)
  (eachPiece pieceLength onPiece ((Stream.content stream).length + 1) stream
    state).mapError (.build path)

def hashPieces (hashes : Hashes) (disk : Disk) (path : String)
    (others : List String) (pieceLength : Nat) : Except TorrentError Bytes :=
  forEachPiece disk path others pieceLength (fun pieces piece =>
    (pieces ++ (hashes.sha1 piece).val, true)) []

/-- No look at the file fails. -/
structure OnDisk.Readable (file : OnDisk) : Prop where
  metadata : file.metadata = .ok ()
  opening : file.opening = .ok ()
  reads : ∀ place, ∃ count, file.reads place = .ok count

def Stream.Readable (stream : Stream) : Prop :=
  ∀ file ∈ stream, ∀ place, ∃ count, file.reads place = .ok count

section Reads

variable {room budget chunk : Nat} {stream : Stream}

theorem Reader.read_of_granted {file : Reader} {wish : Nat}
    (granted : file.reads file.place = .ok wish) :
    ∃ next, file.read room =
        .ok (file.rest.take (min (max wish 1) room), next) ∧
      next.reads = file.reads ∧
      next.rest = file.rest.drop (min (max wish 1) room) := by
  rw [Reader.read, granted]
  exact ⟨_, rfl, rfl, rfl⟩

theorem read_spec (roomy : 0 < room) (readable : stream.Readable) :
    ∃ got rest, stream.read room = .ok (got, rest) ∧ rest.Readable ∧
      stream.content = got ++ Stream.content rest ∧ got.length ≤ room ∧
      (got = [] → stream.content = []) := by
  induction stream with
  | nil => exact ⟨[], [], rfl, readable, rfl, Nat.zero_le _, fun _ => rfl⟩
  | cons file files ih =>
    obtain ⟨here, later⟩ := List.forall_mem_cons.mp readable
    obtain ⟨wish, granted⟩ := here file.place
    obtain ⟨next, taken, reads, left⟩ :=
      Reader.read_of_granted granted
    obtain ⟨got, rest, read, readable_, content, fits, ended⟩ := ih later
    have some_ : 0 < min (max wish 1) room := by omega
    rw [Stream.read, taken]
    by_cases empty : file.rest = []
    · have skipped : Stream.content (file :: files) =
          Stream.content files := by
        rw [Stream.content, List.flatMap_cons, empty, List.nil_append]
        rfl
      simp only [bind, Except.bind, empty, List.take_nil, if_true]
      exact ⟨got, rest, read, readable_, skipped.trans content, fits,
        fun none_ => skipped.trans (ended none_)⟩
    · have handed : file.rest.take (min (max wish 1) room) ≠ [] := by
        intro none_
        rcases List.take_eq_nil_iff.mp none_ with zero | nothing
        · omega
        · exact empty nothing
      simp only [bind, Except.bind, if_neg handed]
      refine ⟨_, _, rfl, List.forall_mem_cons.mpr ⟨?_, later⟩, ?_, ?_,
        fun none_ => absurd none_ handed⟩
      · rw [reads]
        exact here
      · rw [Stream.content, Stream.content, List.flatMap_cons,
          List.flatMap_cons, left, ← List.append_assoc,
          List.take_append_drop]
      · exact Nat.le_trans (List.length_take_le _ _) (Nat.min_le_right _ _)

theorem fill_spec (enough : room ≤ budget) (readable : stream.Readable) :
    ∃ rest, fill budget room stream = .ok (stream.content.take room, rest) ∧
      rest.Readable ∧ Stream.content rest = stream.content.drop room := by
  induction budget generalizing room stream with
  | zero =>
    rw [Nat.le_zero.mp enough]
    exact ⟨stream, rfl, readable, rfl⟩
  | succ budget ih =>
    rw [fill]
    by_cases full : room = 0
    · rw [if_pos full, full]
      exact ⟨stream, rfl, readable, rfl⟩
    · obtain ⟨got, rest, read, readable_, content, fits, ended⟩ :=
        read_spec (Nat.pos_of_ne_zero full) readable
      rw [if_neg full, read]
      by_cases empty : got = []
      · have nothing := ended empty
        rw [empty, nothing, List.nil_append] at content
        simp only [bind, Except.bind, if_pos empty, nothing, List.take_nil,
          List.drop_nil]
        exact ⟨rest, rfl, readable_, content.symm⟩
      · have some_ := List.length_pos_iff.mpr empty
        obtain ⟨last, filled, readable', content_⟩ :=
          ih (by omega : room - got.length ≤ budget) readable_
        simp only [bind, Except.bind, if_neg empty, filled]
        refine ⟨last, ?_, readable', ?_⟩
        · rw [content, List.take_append, List.take_of_length_le fits]
          rfl
        · rw [content_, content, List.drop_append,
            List.drop_of_length_le fits, List.nil_append]

/-- The pieces of a content, each handed over until one is refused. -/
def feed (onPiece : σ → Bytes → σ × Bool) : List Bytes → σ → σ
  | [], state => state
  | piece :: pieces, state =>
    if (onPiece state piece).2 then
      feed onPiece pieces (onPiece state piece).1
    else (onPiece state piece).1

theorem eachPiece_eq (positive : 0 < chunk) (onPiece : σ → Bytes → σ × Bool)
    (readable : stream.Readable) (enough : stream.content.length < budget)
    (state : σ) : eachPiece chunk onPiece budget stream state =
      .ok (feed onPiece (Rust.chunks chunk stream.content) state) := by
  induction budget generalizing stream state with
  | zero => exact absurd enough (Nat.not_lt_zero _)
  | succ budget ih =>
    obtain ⟨rest, filled, readable_, content⟩ :=
      fill_spec (Nat.le_refl chunk) readable
    rw [eachPiece, filled]
    simp only [bind, Except.bind, pure, Except.pure]
    by_cases empty : stream.content = []
    · rw [empty, List.take_nil, if_pos rfl, Rust.chunks_nil, feed]
    · have some_ := List.length_pos_iff.mpr empty
      have piece : stream.content.take chunk ≠ [] := by
        intro none_
        rcases List.take_eq_nil_iff.mp none_ with zero | nothing
        · omega
        · exact empty nothing
      rw [if_neg piece, Rust.chunks_cons positive empty, feed]
      cases more : (onPiece state (stream.content.take chunk)).2 with
      | false => simp
      | true =>
        by_cases last : (stream.content.take chunk).length < chunk
        · have ended : stream.content.drop chunk = [] := by
            rw [List.length_take] at last
            exact List.drop_eq_nil_of_le (by omega)
          simp only [last, decide_true, Bool.or_true, if_true, ended,
            Rust.chunks_nil, feed]
        · have shorter : (Stream.content rest).length < budget := by
            rw [content, List.length_drop]
            omega
          simp only [last, decide_false, Bool.not_true, Bool.or_self,
            Bool.false_eq_true, if_false, if_true]
          rw [ih readable_ shorter, content]

end Reads

section Pieces

variable {disk : Disk} {path : String} {pieceLength : Nat}

/-- One readable file is handed over in the chunks of its content. -/
theorem forEachPiece_eq (readable : (disk path).Readable)
    (positive : 0 < pieceLength) (onPiece : σ → Bytes → σ × Bool) (state : σ) :
    forEachPiece disk path [] pieceLength onPiece state =
      .ok (feed onPiece (Rust.chunks pieceLength (disk path).content)
        state) := by
  have opened : [path].mapM (openFile disk) =
      .ok [⟨(disk path).content, 0, (disk path).reads⟩] := by
    simp only [List.mapM_cons, List.mapM_nil, openFile, readable.opening]
    rfl
  have whole : Stream.content [⟨(disk path).content, 0, (disk path).reads⟩] =
      (disk path).content := by
    simp only [Stream.content, List.flatMap_cons, List.flatMap_nil,
      List.append_nil]
  have granted : Stream.Readable
      [⟨(disk path).content, 0, (disk path).reads⟩] := by
    intro file member
    rw [List.mem_singleton.mp member]
    exact readable.reads
  rw [forEachPiece, opened]
  simp only [bind, Except.bind]
  rw [eachPiece_eq positive onPiece granted (Nat.lt_succ_self _), whole]
  rfl

theorem feed_of_always (step : σ → Bytes → σ) (pieces : List Bytes)
    (state : σ) : feed (fun state piece => (step state piece, true)) pieces
      state = pieces.foldl step state := by
  induction pieces generalizing state with
  | nil => rfl
  | cons piece pieces ih =>
    rw [feed, if_pos rfl, ih, List.foldl_cons]

theorem foldl_append_eq (digest : Bytes → Bytes) (pieces : List Bytes)
    (start : Bytes) :
    pieces.foldl (fun pieces piece => pieces ++ digest piece) start =
      start ++ pieces.flatMap digest := by
  induction pieces generalizing start with
  | nil => rw [List.foldl_nil, List.flatMap_nil, List.append_nil]
  | cons piece pieces ih =>
    rw [List.foldl_cons, ih, List.flatMap_cons, List.append_assoc]

/-- The digests of the pieces of a content, one after the other. -/
def digests (hashes : Hashes) (pieceLength : Nat) (content : Bytes) : Bytes :=
  (Rust.chunks pieceLength content).flatMap fun piece =>
    (hashes.sha1 piece).val

theorem hashPieces_eq (hashes : Hashes) (readable : (disk path).Readable)
    (positive : 0 < pieceLength) :
    hashPieces hashes disk path [] pieceLength =
      .ok (digests hashes pieceLength (disk path).content) := by
  rw [hashPieces, forEachPiece_eq readable positive, feed_of_always,
    foldl_append_eq fun piece => (hashes.sha1 piece).val]
  rfl

end Pieces

end Factory

end Sharerr
