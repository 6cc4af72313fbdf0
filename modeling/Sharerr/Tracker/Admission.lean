import Sharerr.Peers.Table
import Sharerr.Vault.File

/-!
# Who may announce

`authenticate` is the one admission path for announces and scrapes.  It needs
the two shared tokens, which it reads through a cache that is filled from the
vault on a miss and dropped whenever the settings are saved, and the peers
table for the tokens of single friends.
-/

namespace Sharerr

namespace Tracker

/-- `secrets::constant_time_eq`. -/
def constantTimeEq (left right : String) : Bool :=
  let leftBytes := Vault.toUtf8 left
  let rightBytes := Vault.toUtf8 right
  leftBytes.length == rightBytes.length &&
    (leftBytes.zip rightBytes).foldl
      (fun differences pair => differences ||| (pair.1 ^^^ pair.2))
      (0 : UInt8) == 0

def trackerToken : String := "tracker.token"

def trackerTokenPrevious : String := "tracker.token_previous"

/-- `(current, previous)`. -/
abbrev TrackerTokens := Option String × Option String

inductive AnnounceError where
  | badToken
deriving DecidableEq, Repr

structure TokenAuth where
  attributedTo : Option Nat
  viaPrevious : Bool
deriving DecidableEq, Repr

def TokenAuth.default : TokenAuth := ⟨none, false⟩

/-- `Store::peer_by_key_hash` when the query succeeds. -/
def peerByKeyHash (table : PeerTable) (keyHash : String) : Option Peer :=
  (table.rows.find? fun row =>
    row.keyHash = keyHash && row.revokedAt.isNone).map (·.toPeer)

/-- What the instance cannot choose during one call: whether the store opens
and what it holds, whether the peer query fails, and what keeps the vault
from being read at all (the master key, the file, the blocking task). -/
structure Surroundings where
  store : Except String PeerTable
  peerQuery : Except StoreError Unit
  vaultReachable : Except VaultError Unit

/-- The token itself, the one before it, or a friend's own key. -/
def authenticateToken (store : PeerTable) (peerQuery : Except StoreError Unit)
    (required previous supplied : Option String) :
    Except AnnounceError TokenAuth :=
  match required with
  | none => .ok .default
  | some required =>
    match supplied with
    | none => .error .badToken
    | some supplied =>
      if constantTimeEq required supplied then .ok .default
      else if previous.any fun old => constantTimeEq old supplied then
        .ok { TokenAuth.default with viaPrevious := true }
      else
        match peerQuery.map fun _ => peerByKeyHash store supplied with
        | .ok (some peer) =>
          .ok { TokenAuth.default with attributedTo := some peer.id }
        | .ok none => .error .badToken
        | .error _ => .error .badToken

/-- A running instance: its master key, its vault file and the primitives
that read it. -/
structure Instance (Cipher : Type) where
  crypto : Crypto Cipher
  master : String
  freshSalt : Except String Bytes
  file : Option Bytes

/-- The part of `ServeState` the admission path writes: the token cache of
the current `VaultCaches`, and the uses of the previous token. -/
structure ServeState where
  trackerTokens : Option (Option TrackerTokens)
  legacyTokenUses : Nat
deriving DecidableEq, Repr

def ServeState.fresh : ServeState := ⟨none, 0⟩

namespace Instance

variable {Cipher : Type} (node : Instance Cipher)

/-- The vault as it opens once its file and master key can be read. -/
def vault : Except VaultError (Vault Cipher) :=
  Vault.openFile node.crypto node.master node.freshSalt (.ok node.file)

/-- `ServeState::open_vault`. -/
def openVault (around : Surroundings) : Except VaultError (Vault Cipher) := do
  let _ ← around.vaultReachable
  node.vault

/-- `vault_string`: an unreadable value reads as an absent one. -/
def vaultString (vault : Vault Cipher) (key : String) : Option String :=
  match vault.get node.crypto key with
  | .ok value => value
  | .error _ => none

/-- `try_cached_from_vault`: a vault that does not open is not cached. -/
def tryCachedFromVault {α : Type} (cache : Option (Option α))
    (opened : Except VaultError (Vault Cipher))
    (load : Vault Cipher → Option α) :
    Except VaultError (Option α) × Option (Option α) :=
  match cache with
  | some cached => (.ok cached, cache)
  | none =>
    match opened with
    | .error reason => (.error reason, none)
    | .ok vault => (.ok (load vault), some (load vault))

def loadTokens (vault : Vault Cipher) : Option TrackerTokens :=
  some (node.vaultString vault trackerToken,
    node.vaultString vault trackerTokenPrevious)

/-- `ServeState::tracker_tokens`. -/
def trackerTokens (state : ServeState) (around : Surroundings) :
    Except VaultError TrackerTokens × ServeState :=
  let (tokens, cache) := tryCachedFromVault state.trackerTokens
    (node.openVault around) node.loadTokens
  (tokens.map (·.getD (none, none)), { state with trackerTokens := cache })

def authenticate (state : ServeState) (around : Surroundings)
    (supplied : Option String) :
    Except AnnounceError TokenAuth × ServeState :=
  match around.store with
  | .error _ => (.error .badToken, state)
  | .ok store =>
    match node.trackerTokens state around with
    | (.error _, state) => (.error .badToken, state)
    | (.ok (current, previous), state) =>
      match authenticateToken store around.peerQuery current previous
          supplied with
      | .error reason => (.error reason, state)
      | .ok auth =>
        if auth.viaPrevious then
          (.ok auth,
            { state with legacyTokenUses := state.legacyTokenUses + 1 })
        else (.ok auth, state)

theorem trackerTokens_eq (state : ServeState) (around : Surroundings) :
    node.trackerTokens state around =
      match state.trackerTokens with
      | some cached => (.ok (cached.getD (none, none)), state)
      | none =>
        match node.openVault around with
        | .error reason => (.error reason, state)
        | .ok vault => (.ok ((node.loadTokens vault).getD (none, none)),
            { state with trackerTokens := some (node.loadTokens vault) }) := by
  obtain ⟨cache, uses⟩ := state
  cases cache with
  | some cached => rfl
  | none =>
    cases opened : node.openVault around with
    | error reason => simp [trackerTokens, tryCachedFromVault, opened,
        Except.map]
    | ok vault => simp [trackerTokens, tryCachedFromVault, opened,
        Except.map]

/-- What can happen to the cache: an announce is checked, another reader
fills it, or a settings save drops it. -/
inductive Step where
  | announce (around : Surroundings) (supplied : Option String)
  | fill (around : Surroundings)
  | invalidate

def step (state : ServeState) : Step → ServeState
  | .announce around supplied => (node.authenticate state around supplied).2
  | .fill around => (node.trackerTokens state around).2
  | .invalidate => { state with trackerTokens := none }

def after (history : List Step) : ServeState :=
  history.foldl node.step .fresh

/-- The value stored under `key`, if the vault opens and the value reads. -/
def stored (key : String) : Option String :=
  match node.vault with
  | .ok vault => node.vaultString vault key
  | .error _ => none

/-- The file holds a record for the announce token. -/
def HoldsToken : Prop :=
  ∃ raw salt records, node.file = some raw ∧
    Vault.parse raw = .ok (salt, records) ∧
      trackerToken ∈ records.map (·.1)

/-- A supplied token that admits its bearer: one of the two stored ones, or
the key hash of an active peer. -/
def Entitled (around : Surroundings) (supplied : Option String) : Prop :=
  ∃ token, supplied = some token ∧
    (node.stored trackerToken = some token ∨
      node.stored trackerTokenPrevious = some token ∨
        ∃ store, around.store = .ok store ∧
          ∃ row ∈ store.rows, row.keyHash = token ∧ row.revokedAt = none)

/-- The tracker refuses everybody else, whatever was cached and dropped
before, when the file holds a token or does not open. -/
def FailsClosed : Prop :=
  ∀ history around supplied,
    (node.HoldsToken ∨ ∃ reason, node.vault = .error reason) →
      ¬ node.Entitled around supplied →
        (node.authenticate (node.after history) around supplied).1 =
          .error .badToken

/-- A vault that opens can read its announce token, or has none. -/
def TokenReadable : Prop :=
  ∀ vault, node.vault = .ok vault →
    ∃ value, vault.get node.crypto trackerToken = .ok value

/-- A filled cache holds what the vault reads as. -/
def Cached (state : ServeState) : Prop :=
  ∀ cached, state.trackerTokens = some cached →
    ∃ vault, node.vault = .ok vault ∧ cached = node.loadTokens vault

variable {node}

theorem openVault_eq_ok {around : Surroundings} {vault : Vault Cipher}
    (opened : node.openVault around = .ok vault) : node.vault = .ok vault := by
  cases reachable : around.vaultReachable with
  | error reason =>
    simp [openVault, reachable, bind, Except.bind] at opened
  | ok _ => simpa [openVault, reachable, bind, Except.bind] using opened

variable {state : ServeState}

theorem Cached.trackerTokens (cached : node.Cached state)
    (around : Surroundings) :
    node.Cached (node.trackerTokens state around).2 := by
  rw [trackerTokens_eq]
  cases known : state.trackerTokens with
  | some tokens => exact cached
  | none =>
    cases opened : node.openVault around with
    | error reason => exact cached
    | ok vault =>
      intro tokens filled
      cases filled
      exact ⟨vault, openVault_eq_ok opened, rfl⟩

theorem authenticate_cache (state : ServeState) (around : Surroundings)
    (supplied : Option String) :
    (node.authenticate state around supplied).2.trackerTokens =
        state.trackerTokens ∨
      (node.authenticate state around supplied).2.trackerTokens =
        (node.trackerTokens state around).2.trackerTokens := by
  cases opened : around.store with
  | error reason => exact .inl (by simp [authenticate, opened])
  | ok store =>
    right
    rcases read : node.trackerTokens state around with ⟨tokens, after⟩
    cases tokens with
    | error reason => simp [authenticate, opened, read]
    | ok pair =>
      simp only [authenticate, opened, read]
      split
      · rfl
      · split <;> rfl

theorem Cached.step (cached : node.Cached state) (step : Step) :
    node.Cached (node.step state step) := by
  cases step with
  | announce around supplied =>
    intro tokens known
    rcases authenticate_cache state around supplied with same | looked
    · exact cached tokens (same.symm.trans known)
    · exact cached.trackerTokens around tokens (looked.symm.trans known)
  | fill around => exact cached.trackerTokens around
  | invalidate =>
    intro tokens known
    cases known

theorem cached_after (history : List Step) :
    node.Cached (node.after history) := by
  have start : node.Cached .fresh := by
    intro tokens known
    cases known
  exact List.foldlRecOn history node.step start
    fun _ cached step _ => cached.step step

theorem Cached.answer (cached : node.Cached state) {around : Surroundings}
    {tokens : TrackerTokens}
    (answered : (node.trackerTokens state around).1 = .ok tokens) :
    ∃ vault, node.vault = .ok vault ∧
      tokens = (node.vaultString vault trackerToken,
        node.vaultString vault trackerTokenPrevious) := by
  rw [trackerTokens_eq] at answered
  cases known : state.trackerTokens with
  | some found =>
    obtain ⟨vault, opened, rfl⟩ := cached found known
    rw [known] at answered
    cases answered
    exact ⟨vault, opened, rfl⟩
  | none =>
    rw [known] at answered
    cases opened : node.openVault around with
    | error reason =>
      rw [opened] at answered
      cases answered
    | ok vault =>
      rw [opened] at answered
      cases answered
      exact ⟨vault, openVault_eq_ok opened, rfl⟩

end Instance

theorem differences_eq_zero_iff (pairs : List (UInt8 × UInt8))
    (start : UInt8) :
    pairs.foldl (fun differences pair => differences ||| (pair.1 ^^^ pair.2))
        start = 0 ↔
      start = 0 ∧ ∀ pair ∈ pairs, pair.1 = pair.2 := by
  induction pairs generalizing start with
  | nil => simp
  | cons pair pairs ih =>
    rw [List.foldl_cons, ih]
    simp [and_assoc]

theorem eq_of_zip_eq {left right : Bytes}
    (sameLength : left.length = right.length)
    (same : ∀ pair ∈ left.zip right, pair.1 = pair.2) : left = right := by
  induction left generalizing right with
  | nil =>
    cases right with
    | nil => rfl
    | cons _ _ => cases sameLength
  | cons first left ih =>
    cases right with
    | nil => cases sameLength
    | cons other right =>
      have heads : first = other := same (first, other) (by simp)
      have tails : left = right :=
        ih (Nat.succ.inj sameLength) fun pair member =>
          same pair (by simp [member])
      rw [heads, tails]

theorem constantTimeEq_iff {left right : String} :
    constantTimeEq left right = true ↔ left = right := by
  constructor
  · intro equal
    simp only [constantTimeEq, Bool.and_eq_true, beq_iff_eq,
      differences_eq_zero_iff] at equal
    have bytes := eq_of_zip_eq equal.1 equal.2.2
    simp only [Vault.toUtf8, String.toUTF8_eq_toByteArray] at bytes
    apply String.toByteArray_inj.mp
    apply ByteArray.ext
    exact Array.toList_inj.mp bytes
  · rintro rfl
    simp only [constantTimeEq, Bool.and_eq_true, beq_iff_eq, true_and,
      differences_eq_zero_iff]
    intro pair member
    rw [List.zip_eq_zipWith, List.zipWith_self] at member
    obtain ⟨byte, -, rfl⟩ := List.mem_map.mp member
    rfl

theorem peerByKeyHash_eq_some {table : PeerTable} {keyHash : String}
    {peer : Peer} (found : peerByKeyHash table keyHash = some peer) :
    ∃ row ∈ table.rows, row.toPeer = peer ∧ row.keyHash = keyHash ∧
      row.revokedAt = none := by
  obtain ⟨row, chosen, rfl⟩ := Option.map_eq_some_iff.mp found
  have member := List.mem_of_find?_eq_some chosen
  have named := List.find?_some chosen
  simp only [Bool.and_eq_true, decide_eq_true_eq,
    Option.isNone_iff_eq_none] at named
  exact ⟨row, member, rfl, named⟩

theorem authenticateToken_eq_ok {store : PeerTable}
    {peerQuery : Except StoreError Unit} {required : String}
    {previous supplied : Option String} {auth : TokenAuth}
    (admitted : authenticateToken store peerQuery (some required) previous
      supplied = .ok auth) :
    ∃ token, supplied = some token ∧
      (token = required ∨ previous = some token ∨
        ∃ row ∈ store.rows, row.keyHash = token ∧ row.revokedAt = none) := by
  cases supplied with
  | none => cases admitted
  | some token =>
    refine ⟨token, rfl, ?_⟩
    simp only [authenticateToken] at admitted
    split at admitted
    · rename_i equal
      exact .inl (constantTimeEq_iff.mp equal).symm
    · split at admitted
      · rename_i equal
        obtain ⟨old, rfl, same⟩ := (Option.any_eq_true ..).mp equal
        exact .inr (.inl (congrArg some (constantTimeEq_iff.mp same)))
      · split at admitted
        · rename_i peer looked
          cases peerQuery with
          | error reason => cases looked
          | ok _ =>
            obtain ⟨row, member, -, named, active⟩ :=
              peerByKeyHash_eq_some (Except.ok.inj looked)
            exact .inr (.inr ⟨row, member, named, active⟩)
        · cases admitted
        · cases admitted

namespace Instance

variable {Cipher : Type} {node : Instance Cipher}

theorem authenticate_eq_badToken_or (node : Instance Cipher)
    (state : ServeState) (around : Surroundings) (supplied : Option String) :
    (node.authenticate state around supplied).1 = .error .badToken ∨
      ∃ store tokens auth, around.store = .ok store ∧
        (node.trackerTokens state around).1 = .ok tokens ∧
          authenticateToken store around.peerQuery tokens.1 tokens.2
            supplied = .ok auth := by
  cases opened : around.store with
  | error reason => exact .inl (by simp [authenticate, opened])
  | ok store =>
    rcases read : node.trackerTokens state around with ⟨tokens, after⟩
    cases tokens with
    | error reason => exact .inl (by simp [authenticate, opened, read])
    | ok pair =>
      cases checked : authenticateToken store around.peerQuery pair.1
          pair.2 supplied with
      | error reason =>
        cases reason
        exact .inl (by simp [authenticate, opened, read, checked])
      | ok auth => exact .inr ⟨store, pair, auth, rfl, rfl, checked⟩

theorem HoldsToken.required (holds : node.HoldsToken)
    (readable : node.TokenReadable) {vault : Vault Cipher}
    (opened : node.vault = .ok vault) :
    ∃ token, node.vaultString vault trackerToken = some token := by
  obtain ⟨value, got⟩ := readable vault opened
  obtain ⟨raw, salt, records, file, parsed, member⟩ := holds
  have sameRecords : vault.records = records := by
    rcases Vault.openFile_eq_ok opened with ⟨missing, -⟩ |
      ⟨raw', salt', file', parsed'⟩
    · rw [file] at missing
      cases missing
    · rw [file] at file'
      cases file'
      rw [parsed] at parsed'
      cases parsed'
      rfl
  have found : ∃ record, vault.record? trackerToken = some record := by
    obtain ⟨entry, entryMember, named⟩ := List.mem_map.mp member
    cases missing : vault.record? trackerToken with
    | some record => exact ⟨record, rfl⟩
    | none =>
      simp only [Vault.record?, Option.map_eq_none_iff, List.find?_eq_none,
        decide_eq_true_eq, sameRecords] at missing
      exact absurd named (missing entry entryMember)
  obtain ⟨record, found⟩ := found
  cases value with
  | some token => exact ⟨token, by simp [vaultString, got]⟩
  | none =>
    simp only [Vault.get, found] at got
    split at got
    · cases got
    · split at got <;> cases got

theorem holdsToken_of_get_eq_error {vault : Vault Cipher}
    {reason : VaultError} (opened : node.vault = .ok vault)
    (unreadable : vault.get node.crypto trackerToken = .error reason) :
    node.HoldsToken := by
  have member : trackerToken ∈ vault.records.map (·.1) := by
    by_contra absent
    rw [Vault.get_eq_none_of_absent absent] at unreadable
    cases unreadable
  rcases Vault.openFile_eq_ok opened with ⟨-, none⟩ | ⟨raw, salt, file, parsed⟩
  · rw [none] at member
    cases member
  · exact ⟨raw, salt, vault.records, file, parsed, member⟩

/-- Nobody without a token gets in when the token can be read. -/
theorem failsClosed_of_tokenReadable (readable : node.TokenReadable) :
    node.FailsClosed := by
  intro history around supplied configured stranger
  rcases node.authenticate_eq_badToken_or (node.after history) around
    supplied with refused | ⟨store, tokens, auth, stored, read, admitted⟩
  · exact refused
  exfalso
  apply stranger
  obtain ⟨vault, opened, rfl⟩ := (cached_after history).answer read
  have holds : node.HoldsToken := by
    rcases configured with holds | ⟨reason, failed⟩
    · exact holds
    · rw [opened] at failed
      cases failed
  obtain ⟨required, current⟩ := holds.required readable opened
  rw [current] at admitted
  obtain ⟨token, rfl, same | old | ⟨row, member, named, active⟩⟩ :=
    authenticateToken_eq_ok admitted
  · refine ⟨token, rfl, .inl ?_⟩
    simp [Instance.stored, opened, current, same]
  · refine ⟨token, rfl, .inr (.inl ?_)⟩
    simpa [Instance.stored, opened] using old
  · exact ⟨token, rfl, .inr (.inr ⟨store, stored, row, member, named, active⟩)⟩

/-- A first announce, with the store and the vault at hand. -/
def calm : Surroundings :=
  ⟨.ok .empty, .ok (), .ok ()⟩

/-- The tracker fails closed exactly when the vault, if it opens, can read
its announce token: an unreadable one is taken for none. -/
theorem failsClosed_iff_tokenReadable (node : Instance Cipher) :
    node.FailsClosed ↔ node.TokenReadable := by
  constructor
  · intro closed vault opened
    cases got : vault.get node.crypto trackerToken with
    | ok value => exact ⟨value, rfl⟩
    | error reason =>
      have holds := holdsToken_of_get_eq_error opened got
      have stranger : ¬ node.Entitled calm none := by
        rintro ⟨token, supplied, -⟩
        cases supplied
      have refused := closed [] calm none (.inl holds) stranger
      have admitted : (node.authenticate (node.after []) calm none).1 =
          .ok .default := by
        simp [authenticate, after, trackerTokens_eq, ServeState.fresh,
          calm, openVault, bind, Except.bind, opened, loadTokens,
          vaultString, got, authenticateToken, TokenAuth.default]
      rw [admitted] at refused
      cases refused
  · exact failsClosed_of_tokenReadable

end Instance

/-- An authenticated cipher small enough to evaluate: the plaintext followed
by its associated data as the tag. -/
def tagged : Crypto Unit where
  derive _ _ := .ok ()
  decrypt _ _ ciphertext aad :=
    let plaintext := ciphertext.take (ciphertext.length - aad.length)
    if ciphertext.drop plaintext.length = aad then some plaintext else none

def fileRecord (key : String) (ciphertext : Bytes) : Bytes :=
  [UInt8.ofNat (Vault.toUtf8 key).length, 0] ++ Vault.toUtf8 key ++
    List.replicate nonceLen 7 ++ [UInt8.ofNat ciphertext.length, 0, 0, 0] ++
    ciphertext

/-- A vault whose first record reads and whose token record does not. -/
def damaged : Instance Unit where
  crypto := tagged
  master := "master"
  freshSalt := .ok []
  file := some ([vaultVersion] ++ List.replicate saltLen 3 ++
    fileRecord "radarr.api_key" (Vault.toUtf8 "k" ++
      Vault.toUtf8 "radarr.api_key") ++
    fileRecord trackerToken (Vault.toUtf8 "secret"))

/-- The damaged file holds a token record, and yet a first announce without a
token is admitted. -/
theorem damaged_admits_without_token :
    damaged.HoldsToken ∧ ¬ damaged.FailsClosed := by
  have opened : damaged.vault.toBool = true := by decide +kernel
  have unreadable : ∀ vault, damaged.vault = .ok vault →
      vault.get damaged.crypto trackerToken = .error .wrongKey := by
    intro vault same
    have computed : (damaged.vault.map fun vault =>
        vault.get damaged.crypto trackerToken) =
          .ok (.error .wrongKey) := by decide +kernel
    rw [same] at computed
    exact Except.ok.inj computed
  cases found : damaged.vault with
  | error reason =>
    rw [found] at opened
    cases opened
  | ok vault =>
    have got := unreadable vault found
    refine ⟨Instance.holdsToken_of_get_eq_error found got, ?_⟩
    intro closed
    have stranger : ¬ damaged.Entitled Instance.calm none := by
      rintro ⟨token, supplied, -⟩
      cases supplied
    have refused := closed [] Instance.calm none
      (.inl (Instance.holdsToken_of_get_eq_error found got)) stranger
    have admitted : (damaged.authenticate (damaged.after [])
        Instance.calm none).1 = .ok .default := by decide +kernel
    rw [admitted] at refused
    cases refused

end Tracker

end Sharerr
