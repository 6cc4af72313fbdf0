import Sharerr.Friends.Handlers
import Sharerr.Sqlite.Number

/-!
# The rows of `peers` in full

What the Friends page, the feed and the tracker read of a friend: the columns
that identify a row, and beside them its scope, its limits and what its client
has moved.  The counters are kept as SQLite keeps them and decoded on reading.
-/

namespace Sharerr

namespace PeerScope

def asStr : PeerScope → String
  | .all => "all"
  | .tv => "tv"
  | .movies => "movies"
  | .music => "music"
  | .books => "books"

theorem parse_asStr (scope : PeerScope) : parse scope.asStr = scope := by
  cases scope <;> rfl

end PeerScope

namespace Friends

/-- The other columns of a row. -/
structure Columns where
  lastSeenAt : Option Int
  scope : String
  downloaded : Sqlite.Number
  uploaded : Sqlite.Number
  maxSizeBytes : Option Int
  maxHeight : Option Int
deriving DecidableEq, Repr

/-- The columns of a row just inserted. -/
def Columns.new (scope : PeerScope) : Columns :=
  ⟨none, scope.asStr, .integer 0, .integer 0, none, none⟩

/-- A decoded row. -/
structure Friend extends Peer where
  lastSeenAt : Option Int
  scope : PeerScope
  downloaded : Int
  uploaded : Int
  maxSizeBytes : Option Int
  maxHeight : Option Int
deriving DecidableEq, Repr

/-- The single row of `transfer_totals`. -/
structure TotalsRow where
  downloaded : Sqlite.Number
  uploaded : Sqlite.Number
  updatedAt : Option Int
deriving DecidableEq, Repr

structure TransferTotals where
  downloaded : Int
  uploaded : Int
  updatedAt : Option Int
deriving DecidableEq, Repr

/-- `try_get::<i64>`. -/
def tryGetI64 (column : String) (number : Sqlite.Number) :
    Except StoreError Int :=
  match number.decodeI64 with
  | some value => .ok value
  | none => .error (.sql ("error occurred while decoding column " ++
      column.quote ++ ": mismatched types"))

theorem tryGetI64_eq_ok_iff {column : String} {number : Sqlite.Number}
    {value : Int} :
    tryGetI64 column number = .ok value ↔ number.decodeI64 = some value := by
  unfold tryGetI64
  cases number.decodeI64 with
  | none => simp
  | some other => simp

/-- A counter that has become a real in the file cannot be read. -/
def rowToPeer (peer : Peer) (columns : Columns) :
    Except StoreError Friend := do
  let downloaded ← tryGetI64 "downloaded" columns.downloaded
  let uploaded ← tryGetI64 "uploaded" columns.uploaded
  return { peer with
    lastSeenAt := columns.lastSeenAt
    scope := PeerScope.parse columns.scope
    downloaded
    uploaded
    maxSizeBytes := columns.maxSizeBytes
    maxHeight := columns.maxHeight }

theorem rowToPeer_eq_ok {peer : Peer} {columns : Columns} {friend : Friend}
    (read : rowToPeer peer columns = .ok friend) :
    friend.toPeer = peer ∧
      columns.downloaded.decodeI64 = some friend.downloaded ∧
        columns.uploaded.decodeI64 = some friend.uploaded := by
  obtain ⟨downloaded, first, rest⟩ := Rust.bind_eq_ok read
  obtain ⟨uploaded, second, rest⟩ := Rust.bind_eq_ok rest
  cases rest
  exact ⟨rfl, tryGetI64_eq_ok_iff.mp first, tryGetI64_eq_ok_iff.mp second⟩

theorem rowToPeer_isOk {peer : Peer} {columns : Columns}
    {downloaded uploaded : Int}
    (first : columns.downloaded.decodeI64 = some downloaded)
    (second : columns.uploaded.decodeI64 = some uploaded) :
    ∃ friend, rowToPeer peer columns = .ok friend := by
  unfold rowToPeer
  rw [tryGetI64_eq_ok_iff.mpr first, tryGetI64_eq_ok_iff.mpr second]
  exact ⟨_, rfl⟩

structure Store where
  peers : PeerTable
  columns : Nat → Columns
  totals : TotalsRow

namespace Store

def empty : Store where
  peers := PeerTable.empty
  columns := fun _ => Columns.new .all
  totals := ⟨.integer 0, .integer 0, none⟩

/-- `rows.iter().map(row_to_peer).collect()`. -/
def decoded (store : Store) (peers : List Peer) :
    Except StoreError (List Friend) :=
  peers.mapM fun peer => rowToPeer peer (store.columns peer.id)

def listPeers (store : Store) : Except StoreError (List Friend) :=
  store.decoded store.peers.listPeers

def activePeers (store : Store) : Except StoreError (List Friend) :=
  store.decoded store.peers.activePeers

def peerByKeyHash (store : Store) (keyHash : String) :
    Except StoreError (Option Friend) :=
  match store.peers.rows.find? fun row =>
      row.keyHash = keyHash && row.revokedAt.isNone with
  | none => .ok none
  | some row => (rowToPeer row.toPeer (store.columns row.id)).map some

def transferTotals (store : Store) : Except StoreError TransferTotals := do
  let downloaded ← tryGetI64 "downloaded" store.totals.downloaded
  let uploaded ← tryGetI64 "uploaded" store.totals.uploaded
  return ⟨downloaded, uploaded, store.totals.updatedAt⟩

def withColumns (store : Store) (id : Nat) (columns : Columns) : Store :=
  { store with columns := Function.update store.columns id columns }

/-- `create_peer`. -/
def createPeer (store : Store) (label keyHash : String) (scope : PeerScope)
    (now : Int) : Except StoreError Peer × Store :=
  match validateLabel label with
  | .error message => (.error (.invalidUser message), store)
  | .ok label =>
    match store.peers.insert label keyHash now with
    | none => (.error (.userExists label), store)
    | some (peer, peers) =>
      (.ok peer, { store with peers }.withColumns peer.id
        (Columns.new scope))

def revokePeer (store : Store) (id : Nat) (now : Int) : Store :=
  { store with
    peers := store.peers.update id
      (fun row => { row with revokedAt := row.revokedAt.or (some now) })
      fun _ => ⟨rfl, rfl, rfl⟩ }

def deletePeer (store : Store) (id : Nat) : Store :=
  { store with peers := store.peers.delete id }

/-- `SET downloaded = downloaded + ?1`. -/
def added (number : Sqlite.Number) (delta : Nat) : Sqlite.Number :=
  (number.add (.integer (Rust.saturatingI64 delta))).inIntegerColumn

/-- `record_transfer`. -/
def recordTransfer (store : Store) (peerId : Option Nat)
    (downloaded uploaded : Nat) (now : Int) : Store :=
  if downloaded = 0 ∧ uploaded = 0 then store
  else
    let counted : Store := { store with totals :=
      ⟨added store.totals.downloaded downloaded,
        added store.totals.uploaded uploaded, some now⟩ }
    match peerId with
    | none => counted
    | some id =>
      match store.peers.row? id with
      | none => counted
      | some _ => counted.withColumns id
          { store.columns id with
            downloaded := added (store.columns id).downloaded downloaded
            uploaded := added (store.columns id).uploaded uploaded }

variable {store : Store}

/-- A friend is created under the trimmed label, or nothing changes. -/
theorem createPeer_cases (store : Store) (label keyHash : String)
    (scope : PeerScope) (now : Int) :
    (store.createPeer label keyHash scope now).2 = store ∧
        (∀ trimmed, validateLabel label = .ok trimmed →
          store.peers.insert trimmed keyHash now = none) ∨
      ∃ trimmed peer peers, validateLabel label = .ok trimmed ∧
        store.peers.insert trimmed keyHash now = some (peer, peers) ∧
          store.createPeer label keyHash scope now =
            (.ok peer, { store with peers }.withColumns peer.id
              (Columns.new scope)) := by
  unfold createPeer
  cases valid : validateLabel label with
  | error message => exact .inl ⟨rfl, by simp⟩
  | ok trimmed =>
    cases inserted : store.peers.insert trimmed keyHash now with
    | none =>
      left
      constructor
      · simp only [inserted]
      · intro other same
        cases same
        exact inserted
    | some pair =>
      obtain ⟨peer, peers⟩ := pair
      exact .inr ⟨trimmed, peer, peers, rfl, inserted,
        by simp only [inserted]⟩

section Recording

variable {peerId : Option Nat} {downloaded uploaded : Nat} {now : Int}

@[simp] theorem recordTransfer_nothing :
    store.recordTransfer peerId 0 0 now = store :=
  rfl

theorem recordTransfer_peers (store : Store) (peerId : Option Nat)
    (downloaded uploaded : Nat) (now : Int) :
    (store.recordTransfer peerId downloaded uploaded now).peers =
      store.peers := by
  unfold recordTransfer
  split
  · rfl
  · cases peerId with
    | none => rfl
    | some id =>
      dsimp only
      split
      · rfl
      · rfl

theorem recordTransfer_totals (store : Store) (peerId : Option Nat)
    (now : Int) (moved : ¬ (downloaded = 0 ∧ uploaded = 0)) :
    (store.recordTransfer peerId downloaded uploaded now).totals =
      ⟨added store.totals.downloaded downloaded,
        added store.totals.uploaded uploaded, some now⟩ := by
  rw [recordTransfer, if_neg moved]
  cases peerId with
  | none => rfl
  | some id =>
    dsimp only
    split
    · rfl
    · rfl

theorem recordTransfer_columns_other {id : Nat} (other : peerId ≠ some id) :
    (store.recordTransfer peerId downloaded uploaded now).columns id =
      store.columns id := by
  unfold recordTransfer
  split
  · rfl
  · cases peerId with
    | none => rfl
    | some named =>
      have different : id ≠ named := by
        rintro rfl
        exact other rfl
      dsimp only
      split
      · rfl
      · exact Function.update_of_ne different _ _

theorem recordTransfer_columns_own {id : Nat}
    (moved : ¬ (downloaded = 0 ∧ uploaded = 0))
    (found : (store.peers.row? id).isSome) :
    (store.recordTransfer (some id) downloaded uploaded now).columns id =
      { store.columns id with
        downloaded := added (store.columns id).downloaded downloaded
        uploaded := added (store.columns id).uploaded uploaded } := by
  obtain ⟨row, present⟩ := Option.isSome_iff_exists.mp found
  rw [recordTransfer, if_neg moved]
  simp only [present]
  exact Function.update_self _ _ _

end Recording

variable {peers : List Peer}

theorem mem_of_decoded {friends : List Friend}
    (read : store.decoded peers = .ok friends) {friend : Friend}
    (member : friend ∈ friends) :
    ∃ peer ∈ peers, rowToPeer peer (store.columns peer.id) = .ok friend := by
  induction peers generalizing friends with
  | nil =>
    cases read
    cases member
  | cons peer peers ih =>
    rw [decoded, List.mapM_cons] at read
    obtain ⟨first, here, read⟩ := Rust.bind_eq_ok read
    obtain ⟨rest, there, read⟩ := Rust.bind_eq_ok read
    cases read
    rcases List.mem_cons.mp member with rfl | later
    · exact ⟨peer, List.mem_cons_self, here⟩
    · obtain ⟨other, among, decodes⟩ := ih there later
      exact ⟨other, List.mem_cons_of_mem _ among, decodes⟩

/-- What a row decodes to is in the list. -/
theorem mem_decoded {friends : List Friend}
    (read : store.decoded peers = .ok friends) {peer : Peer}
    (member : peer ∈ peers) {friend : Friend}
    (decodes : rowToPeer peer (store.columns peer.id) = .ok friend) :
    friend ∈ friends := by
  induction peers generalizing friends with
  | nil => cases member
  | cons first peers ih =>
    rw [decoded, List.mapM_cons] at read
    obtain ⟨head, here, read⟩ := Rust.bind_eq_ok read
    obtain ⟨rest, there, read⟩ := Rust.bind_eq_ok read
    cases read
    rcases List.mem_cons.mp member with rfl | later
    · cases here.symm.trans decodes
      exact List.mem_cons_self
    · exact List.mem_cons_of_mem _ (ih there later)

theorem decoded_isOk_iff :
    (∃ friends, store.decoded peers = .ok friends) ↔
      ∀ peer ∈ peers, ∃ friend,
        rowToPeer peer (store.columns peer.id) = .ok friend := by
  induction peers with
  | nil =>
    constructor
    · intro _ peer member
      cases member
    · intro _
      exact ⟨[], rfl⟩
  | cons peer peers ih =>
    constructor
    · rintro ⟨friends, read⟩
      rw [decoded, List.mapM_cons] at read
      obtain ⟨first, here, read⟩ := Rust.bind_eq_ok read
      obtain ⟨rest, there, -⟩ := Rust.bind_eq_ok read
      intro other member
      rcases List.mem_cons.mp member with rfl | later
      · exact ⟨first, here⟩
      · exact ih.mp ⟨rest, there⟩ other later
    · intro each
      obtain ⟨first, here⟩ := each peer List.mem_cons_self
      obtain ⟨rest, there⟩ := ih.mpr fun other member =>
        each other (List.mem_cons_of_mem _ member)
      refine ⟨first :: rest, ?_⟩
      rw [decoded] at there ⊢
      rw [List.mapM_cons, here, there]
      rfl

end Store

end Friends

end Sharerr
