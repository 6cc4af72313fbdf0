import Sharerr.Process.Safety
import Sharerr.Tracker.Admission
import Sharerr.Vault.Handles

/-!
# The vault values an instance keeps

Reading a value means deriving the vault's key, so `VaultCaches` keeps what was
read.  `invalidate` puts an empty set of caches in place of the one before; a
request that holds the old set goes on filling it.  A set is known by its
number in the order they were put in place.

The vault is opened by handles that their callers own, so the file is all they
share.
-/

namespace Sharerr

namespace Vault

instance Handle.decidableEq {Cipher : Type} [DecidableEq Cipher] :
    DecidableEq (Handle Cipher) :=
  fun left right =>
    decidable_of_iff (left.salt = right.salt ∧ left.cipher = right.cipher ∧
        left.records = right.records)
      ⟨fun ⟨salt, cipher, records⟩ => Handle.eq_of_parts salt cipher records,
        fun same => same ▸ ⟨rfl, rfl, rfl⟩⟩

end Vault

namespace Serve

open Process (Prog Performed Safe)

namespace Caches

def metricsToken : String := "metrics.token"

def apiToken : String := "api.token"

/-- The caches of `VaultCaches` that decide who is let in. -/
inductive Name where
  | trackerTokens
  | metricsToken
  | apiToken
deriving DecidableEq, Repr

namespace Name

/-- What a cache holds. -/
def Value : Name → Type
  | trackerTokens => Tracker.TrackerTokens
  | metricsToken | apiToken => String

instance (name : Name) : DecidableEq name.Value :=
  match name with
  | trackerTokens => inferInstanceAs (DecidableEq Tracker.TrackerTokens)
  | metricsToken | apiToken => inferInstanceAs (DecidableEq String)

/-- What the accessor over a cache returns. -/
def Returned : Name → Type
  | trackerTokens => Tracker.TrackerTokens
  | metricsToken | apiToken => Option String

instance (name : Name) : DecidableEq name.Returned :=
  match name with
  | trackerTokens => inferInstanceAs (DecidableEq Tracker.TrackerTokens)
  | metricsToken | apiToken => inferInstanceAs (DecidableEq (Option String))

/-- The accessor's answer out of the cache. -/
def returned : (name : Name) → Option name.Value → name.Returned
  | trackerTokens, tokens =>
    (tokens : Option Tracker.TrackerTokens).getD (none, none)
  | metricsToken, token => token
  | apiToken, token => token

end Name

/-- The outer `none` means "not looked up yet", `some none` means "looked up,
and there is none". -/
abbrev VaultCaches := (name : Name) → Option (Option name.Value)

def VaultCaches.default : VaultCaches := fun _ => none

structure World where
  file : Option Bytes
  /-- The set of caches that `vault_caches` points to. -/
  current : Nat
  caches : Nat → VaultCaches
  /-- Who holds the write guard of a cache. -/
  guards : Nat → Name → Option Nat

/-- One step of a reader or a writer of the vault. -/
inductive Call (Cipher : Type) where
  /-- `ServeState::vault_caches`. -/
  | fetchCaches
  | readCache (set : Nat) (name : Name)
  | lockCache (set : Nat) (name : Name)
  /-- The look at the cache under the write guard. -/
  | recheckCache (set : Nat) (name : Name)
  | fillCache (set : Nat) (name : Name) (value : Option name.Value)
  | unlockCache (set : Nat) (name : Name)
  | openVault
  | mutate (handle : Vault.Handle Cipher) (mutation : Vault.Mutation)
  | invalidate (reason : String)
deriving DecidableEq

variable {Cipher : Type}

/-- What a call returns.  A vault call comes with what its host gave it, and a
mutation with the handle it leaves. -/
@[reducible] def Answer : Call Cipher → Type
  | .fetchCaches => Nat
  | .readCache _ name | .recheckCache _ name => Option (Option name.Value)
  | .openVault => Vault.Host × Except String (Vault.Handle Cipher)
  | .mutate _ _ =>
    Vault.Host × Vault.Handle Cipher × Except VaultError Vault.Answer
  | _ => Unit

abbrev Program (Cipher : Type) := Prog (Call Cipher) Answer

abbrev Event (Cipher : Type) := Process.Event Nat (Call Cipher) Answer

abbrev Moment (Cipher : Type) :=
  Process.Moment Nat World (Call Cipher) Answer

namespace World

def fill (world : World) (set : Nat) (name : Name)
    (value : Option name.Value) : World :=
  { world with
    caches := Function.update world.caches set
      (Function.update (world.caches set) name (some value)) }

def guard (world : World) (set : Nat) (name : Name) (holder : Option Nat) :
    World :=
  { world with
    guards := Function.update world.guards set
      (Function.update (world.guards set) name holder) }

/-- A process that just came up. -/
def start (file : Option Bytes) : World :=
  ⟨file, 0, fun _ => .default, fun _ _ => none⟩

end World

section Perform

variable [DecidableEq Cipher] (sealing : Sealing Cipher) (master : String)

/-- What a call does.  A vault may fail to open for any reason. -/
def perform : Process.Perform Nat World (Call Cipher) Answer :=
  fun thread world request answer =>
    match request, answer with
    | .fetchCaches, set => if set = world.current then some world else none
    | .readCache set name, cached =>
      if world.guards set name = none ∧ cached = world.caches set name then
        some world
      else none
    | .lockCache set name, _ =>
      if world.guards set name = none then
        some (world.guard set name (some thread))
      else none
    | .recheckCache set name, cached =>
      if cached = world.caches set name then some world else none
    | .fillCache set name value, _ => some (world.fill set name value)
    | .unlockCache set name, _ =>
      if world.guards set name = some thread then
        some (world.guard set name none)
      else none
    | .openVault, (_, .error _) => some world
    | .openVault, (host, .ok handle) =>
      if (Vault.Handle.openAt sealing master host world.file).toOption =
          some handle then some world
      else none
    | .mutate handle mutation, (host, left, answer) =>
      let outcome := handle.mutate sealing host world.file mutation
      if outcome.handle = left ∧ outcome.answer = answer then
        some { world with file := outcome.file }
      else none
    | .invalidate _, _ =>
      some { world with
        current := world.current + 1
        caches := Function.update world.caches (world.current + 1)
          .default }

end Perform

section Programs

variable (sealing : Sealing Cipher)

/-- `vault_string`: an unreadable value reads as an absent one. -/
def vaultString (vault : Vault.Handle Cipher) (key : String) : Option String :=
  match vault.get sealing.toCrypto key with
  | .ok value => value
  | .error _ => none

/-- `try_cached_from_vault`. -/
def tryCachedFromVault (set : Nat) (name : Name)
    (load : Vault.Handle Cipher → Option name.Value) :
    Program Cipher (Except String (Option name.Value)) :=
  .call (.readCache set name) fun
    | some cached => .done (.ok cached)
    | none =>
      .call (.lockCache set name) fun _ =>
        .call (.recheckCache set name) fun
          | some cached =>
            .call (.unlockCache set name) fun _ => .done (.ok cached)
          | none =>
            .call .openVault fun
              | (_, .error reason) =>
                .call (.unlockCache set name) fun _ =>
                  .done (.error reason)
              | (_, .ok vault) =>
                .call (.fillCache set name (load vault)) fun _ =>
                  .call (.unlockCache set name) fun _ =>
                    .done (.ok (load vault))

def loadTokens (vault : Vault.Handle Cipher) :
    Option Tracker.TrackerTokens :=
  some (vaultString sealing vault Tracker.trackerToken,
    vaultString sealing vault Tracker.trackerTokenPrevious)

def trackerTokens :
    Program Cipher (Except String Tracker.TrackerTokens) :=
  .call .fetchCaches fun set =>
    (tryCachedFromVault set .trackerTokens (loadTokens sealing)).bind
      fun tokens => .done (tokens.map (Name.returned .trackerTokens))

def tryMetricsToken : Program Cipher (Except String (Option String)) :=
  .call .fetchCaches fun set =>
    tryCachedFromVault set .metricsToken fun vault =>
      vaultString sealing vault metricsToken

def tryApiToken : Program Cipher (Except String (Option String)) :=
  .call .fetchCaches fun set =>
    tryCachedFromVault set .apiToken fun vault =>
      vaultString sealing vault apiToken

/-- The accessor over a cache. -/
def accessor :
    (name : Name) → Program Cipher (Except String name.Returned)
  | .trackerTokens => trackerTokens sealing
  | .metricsToken => tryMetricsToken sealing
  | .apiToken => tryApiToken sealing

/-- What a writer of the vault does about the caches. -/
def Call.IsWriting : Call Cipher → Prop
  | .openVault | .mutate _ _ | .invalidate _ => True
  | _ => False

/-- The requests that meet in the caches: a writer makes any calls on the
vault and invalidates when it likes. -/
inductive Job (Cipher : Type) where
  | read (name : Name)
  | write (program : Program Cipher (Except String Unit))
      (writing : program.Only Call.IsWriting)

inductive Result where
  | read (name : Name) (value : Except String name.Returned)
  | wrote (answer : Except String Unit)
deriving DecidableEq

def Job.program : Job Cipher → Program Cipher Result
  | .read name => (accessor sealing name).bind fun value =>
    .done (.read name value)
  | .write program _ => program.bind fun answer => .done (.wrote answer)

def pool (file : Option Bytes) (jobs : Nat → Job Cipher) :
    Process.Pool Nat World (Call Cipher) Answer Result where
  world := .start file
  threads thread := (jobs thread).program sealing

end Programs

end Caches

end Serve

end Sharerr
