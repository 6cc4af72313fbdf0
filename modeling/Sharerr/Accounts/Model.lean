import Mathlib.Algebra.Group.Nat.Defs
import Sharerr.Accounts.Totp
import Sharerr.Process.Pool
import Sharerr.Table.Keyed

/-!
# Accounts, sessions and what the sign-in pages ask of them

The accounts are rows of the `users` table; the sessions and the sign-ins that
wait for a code are maps in memory.  Each statement and each section under the
lock of a map is one call.  Hashing and checking a password are calls of their
own, between the statements around them.
-/

namespace Sharerr

namespace Accounts

open Process (Prog)

/-- The errors a call on the accounts can end in. -/
inductive AccountError where
  | sql (detail : String)
  | passwordHash (detail : String)
  | tooBusy
  | userExists (username : String)
  | invalidUser (message : String)
deriving DecidableEq, Repr

def AccountError.text : AccountError → String
  | sql detail => "database error: " ++ detail
  | passwordHash detail => "password hashing failed: " ++ detail
  | tooBusy => "too many concurrent password checks — try again shortly"
  | userExists username =>
    "a user named " ++ username.quote ++ " already exists"
  | invalidUser message => message

structure User where
  username : String
  passwordHash : String
  totpSecret : Option String
  totpLastStep : Option Int
deriving DecidableEq, Repr

/-- The `users` table. -/
structure UserTable where
  rows : List User
  unique : (rows.map (·.username)).Nodup

namespace UserTable

def names (table : UserTable) : List String :=
  table.rows.map (·.username)

def empty : UserTable := ⟨[], .nil⟩

def user? (table : UserTable) (username : String) : Option User :=
  Keyed.find (·.username) table.rows username

def insert (table : UserTable) (user : User)
    (fresh : user.username ∉ table.names) : UserTable where
  rows := table.rows ++ [user]
  unique := Keyed.nodup_append table.unique fresh

/-- An `UPDATE` of the row with this name. -/
def update (table : UserTable) (username : String) (write : User → User)
    (keeps : ∀ user, (write user).username = user.username) : UserTable where
  rows := Keyed.modify (·.username) table.rows username write
  unique := by
    rw [Keyed.map_modify keeps]
    exact table.unique

def setPassword (table : UserTable) (username hash : String) : UserTable :=
  table.update username (fun user => { user with passwordHash := hash })
    fun _ => rfl

/-- Either way the replay guard starts over. -/
def setTotpSecret (table : UserTable) (username : String)
    (secret : Option String) : UserTable :=
  table.update username
    (fun user => { user with totpSecret := secret, totpLastStep := none })
    fun _ => rfl

def setLastStep (table : UserTable) (username : String) (step : Int) :
    UserTable :=
  table.update username (fun user => { user with totpLastStep := some step })
    fun _ => rfl

end UserTable

/-- Whether a step is later than the last one accepted. -/
def User.unspent (user : User) (step : Int) : Bool :=
  user.totpLastStep.all fun last => last < step

structure Session where
  username : String
  lastSeen : Nat
deriving DecidableEq, Repr

structure Pending where
  username : String
  created : Nat
  failures : Nat
deriving DecidableEq, Repr

/-- Fourteen days, in nanoseconds. -/
def sessionTtl : Nat := 14 * 24 * 60 * 60 * 10 ^ 9

/-- Five minutes, in nanoseconds. -/
def pendingTtl : Nat := 5 * 60 * 10 ^ 9

def pendingFailures : Nat := 5

structure World where
  users : UserTable
  sessions : String → Option Session
  pending : String → Option Pending
  /-- The tokens drawn so far. -/
  drawn : List String

/-- One statement of the store, or one look at the clock. -/
inductive Call where
  | openStore
  | userCount
  /-- `blocking_hash`, once a slot is free. -/
  | hashPassword (password : String)
  | insertUser (username hash : String)
  | selectPasswordHash (username : String)
  /-- `blocking_verify`, once a slot is free; a decoy stands in for an absent
  hash. -/
  | verifyHash (password : String) (stored : Option String)
  | updatePassword (username hash : String)
  | selectTotpSecret (username : String)
  | setTotpSecret (username : String) (secret : Option String)
  | claimTotpStep (username : String) (step : Int)
  | nowEpoch
  | createSession (username : String)
  | touchSession (token : String)
  | revokeAllExcept (token : String)
  | beginSecondFactor (username : String)
  | pendingUser (token : String)
  | failSecondFactor (token : String)
  | finishSecondFactor (token : String)
deriving DecidableEq

/-- What a call returns; one that looks at the age of an entry comes with the
time it was made at. -/
@[reducible] def Answer : Call → Type
  | .openStore => Except String Unit
  | .userCount => Except AccountError Nat
  | .hashPassword _ => Except AccountError String
  | .insertUser _ _ => Except AccountError Unit
  | .selectPasswordHash _ => Except AccountError (Option String)
  | .verifyHash _ _ => Except AccountError Bool
  | .updatePassword _ _ => Except AccountError Bool
  | .selectTotpSecret _ => Except AccountError (Option String)
  | .setTotpSecret _ _ => Except AccountError Bool
  | .claimTotpStep _ _ => Except AccountError Bool
  | .nowEpoch => Int
  | .createSession _ | .beginSecondFactor _ => Nat × Except String String
  | .touchSession _ | .pendingUser _ => Nat × Option String
  | .failSecondFactor _ => Bool
  | .revokeAllExcept _ | .finishSecondFactor _ => Unit

abbrev Program := Prog Call Answer

abbrev Event := Process.Event Nat Call Answer

abbrev Moment := Process.Moment Nat World Call Answer

namespace World

variable (world : World)

/-- `Sessions::create`: entries that have expired go first. -/
def createSession (token username : String) (now : Nat) : World :=
  { world with
    sessions := Function.update
      (fun other => (world.sessions other).filter fun session =>
        now - session.lastSeen < sessionTtl)
      token (some ⟨username, now⟩)
    drawn := token :: world.drawn }

/-- Who a session is for, unless it has expired. -/
def sessionUser (token : String) (now : Nat) : Option String :=
  ((world.sessions token).filter fun session =>
    now - session.lastSeen < sessionTtl).map (·.username)

/-- `Sessions::touch`. -/
def touch (token : String) (now : Nat) : World :=
  { world with
    sessions := Function.update world.sessions token
      (((world.sessions token).filter fun session =>
        now - session.lastSeen < sessionTtl).map fun session =>
          { session with lastSeen := now }) }

def revokeAllExcept (keep : String) : World :=
  { world with
    sessions := fun token =>
      if token = keep then world.sessions token else none }

def beginSecondFactor (token username : String) (now : Nat) : World :=
  { world with
    pending := Function.update
      (fun other => (world.pending other).filter fun entry =>
        now - entry.created < pendingTtl)
      token (some ⟨username, now, 0⟩)
    drawn := token :: world.drawn }

def pendingUser (token : String) (now : Nat) : Option String :=
  ((world.pending token).filter fun entry =>
    now - entry.created < pendingTtl).map (·.username)

/-- `fail_second_factor`: whether the entry has failures left, and the world
after it. -/
def failSecondFactor (token : String) : Bool × World :=
  match world.pending token with
  | none => (false, world)
  | some entry =>
    if entry.failures + 1 ≥ pendingFailures then
      (false,
        { world with pending := Function.update world.pending token none })
    else
      (true,
        { world with
          pending := Function.update world.pending token
            (some { entry with failures := entry.failures + 1 }) })

def finishSecondFactor (token : String) : World :=
  { world with pending := Function.update world.pending token none }

end World

/-- What the accounts rest on in other crates: Argon2, and the value of a
counter under a key. -/
structure Primitives where
  verifies : (password hash : String) → Bool
  hotp : (key : Bytes) → (counter : Nat) → Nat

section Perform

variable (primitives : Primitives)

/-- What a call does.  A statement or a hashing task may fail for any reason,
and 256 random bits do not come twice. -/
def perform : Process.Perform Nat World Call Answer :=
  fun _ world request answer =>
    match request, answer with
    | .userCount, .ok count =>
      if count = world.users.rows.length then some world else none
    | .hashPassword password, .ok hash =>
      if primitives.verifies password hash then some world else none
    | .insertUser username hash, .ok _ =>
      if fresh : username ∉ world.users.names then
        some { world with
          users := world.users.insert ⟨username, hash, none, none⟩ fresh }
      else none
    | .insertUser username _, .error (.userExists name) =>
      if name = username ∧ username ∈ world.users.names then
        some world
      else none
    | .selectPasswordHash username, .ok stored =>
      if stored = (world.users.user? username).map (·.passwordHash) then
        some world
      else none
    | .verifyHash password (some stored), .ok verified =>
      if verified = primitives.verifies password stored then some world
      else none
    | .updatePassword username hash, .ok changed =>
      if changed = (world.users.user? username).isSome then
        some { world with users := world.users.setPassword username hash }
      else none
    | .selectTotpSecret username, .ok secret =>
      if secret = (world.users.user? username).bind (·.totpSecret) then
        some world
      else none
    | .setTotpSecret username secret, .ok changed =>
      if changed = (world.users.user? username).isSome then
        some { world with
          users := world.users.setTotpSecret username secret }
      else none
    | .claimTotpStep username step, .ok claimed =>
      if claimed = (world.users.user? username).any (·.unspent step) then
        if claimed then
          some { world with users := world.users.setLastStep username step }
        else some world
      else none
    | .createSession username, (now, .ok token) =>
      if token ∈ world.drawn then none
      else some (world.createSession token username now)
    | .touchSession token, (now, username) =>
      if username = world.sessionUser token now then
        some (world.touch token now)
      else none
    | .revokeAllExcept token, _ => some (world.revokeAllExcept token)
    | .beginSecondFactor username, (now, .ok token) =>
      if token ∈ world.drawn then none
      else some (world.beginSecondFactor token username now)
    | .pendingUser token, (now, username) =>
      if username = world.pendingUser token now then some world else none
    | .failSecondFactor token, left =>
      if left = (world.failSecondFactor token).1 then
        some (world.failSecondFactor token).2
      else none
    | .finishSecondFactor token, _ => some (world.finishSecondFactor token)
    | _, _ => some world

end Perform

end Accounts

end Sharerr
